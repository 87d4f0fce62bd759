import Rustlet.Proofs.Proper
import Rustlet.Proofs.Reading.Expressions
import Rustlet.Proofs.Relabelling

namespace Rustlet.Grammar

open Filter Parse Relabelling

variable {ls : List Lexeme}

theorem head?_type_ne_mut (t : TypeExpr) (rest : List Lexeme) :
    (t.lexemes ++ rest).head? ≠ some (.keyword .mutKw) := by
  cases t with
  | path p => cases p <;> simp [TypeExpr.lexemes, TypePath.lexeme]
  | unit => simp [TypeExpr.lexemes]
  | ref isMut target => cases isMut <;> simp [TypeExpr.lexemes]

theorem reads_type (t : TypeExpr) : Reads .type (fun _ => True) t.lexemes t := by
  induction t with
  | path p =>
    refine .of_rule (.of_forall fun depth rest _ => ?_)
    change typeRule (parse depth) _ = _
    cases p <;> simp [typeRule, TypeExpr.lexemes, TypePath.lexeme]
  | unit =>
    refine .of_rule (.of_forall fun depth rest _ => ?_)
    change typeRule (parse depth) _ = _
    simp [typeRule, TypeExpr.lexemes]
  | ref isMut target ih =>
    refine .of_rule ?_
    filter_upwards [ih] with depth ih rest _
    have hread := ih rest trivial
    change typeRule (parse depth) _ = _
    cases isMut with
    | true => simp [typeRule, TypeExpr.lexemes, hread]
    | false =>
      have hskip := skip_flat _ _ (head?_type_ne_mut target rest)
      simp [typeRule, TypeExpr.lexemes, hread, hskip]

theorem readsItem_param (p : Param) :
    ∀ᶠ depth in atTop, ReadsItem .closeParen (parse depth .param) p.lexemes (unplaced.param p) := by
  have hparam : Reads .param (fun _ => True) p.lexemes (unplaced.param p) := by
    refine .of_rule ?_
    filter_upwards [reads_type p.type] with depth htype rest _
    change paramRule (parse depth) _ = _
    simp [paramRule, Param.lexemes, htype rest trivial, unplaced]
  filter_upwards [hparam] with depth h
  exact ⟨by simp [Param.lexemes], by simp [Param.lexemes], fun s _ rest => h _ trivial⟩

theorem readsItem_fieldDecl (f : FieldDecl) :
    ∀ᶠ depth in atTop, ReadsItem .closeBrace (fieldDecl (parse depth)) f.lexemes
      (unplaced.fieldDecl f) := by
  filter_upwards [reads_type f.type] with depth htype
  refine ⟨by simp [FieldDecl.lexemes], by simp [FieldDecl.lexemes], fun s _ rest => ?_⟩
  simp [Grammar.fieldDecl, FieldDecl.lexemes, htype _ trivial, unplaced]

/-- Items that are each read at every depth that is large enough are all read there. -/
theorem eventually_forall₂_map {α β : Type} {R : Nat → List Lexeme → β → Prop}
    {print : α → List Lexeme} {label : α → β} (items : List α)
    (h : ∀ a ∈ items, ∀ᶠ depth in atTop, R depth (print a) (label a)) :
    ∀ᶠ depth in atTop, List.Forall₂ (R depth) (items.map print) (items.map label) := by
  induction items with
  | nil => exact .of_forall fun _ => .nil
  | cons a items ih =>
    filter_upwards [h a (by simp), ih fun b hb => h b (by simp [hb])] with depth ha hitems
    exact .cons ha hitems

theorem reads_structDecl (d : StructDecl) :
    Reads .structDecl (fun _ => True) d.lexemes (unplaced.structDecl d) := by
  refine .of_rule ?_
  filter_upwards [eventually_forall₂_map d.fields fun f _ => readsItem_fieldDecl f]
    with depth hfields rest _
  have hlist := listUntil_listed (by decide) hfields rest
  change structDeclRule (parse depth) _ = _
  simp [structDeclRule, StructDecl.lexemes, hlist, unplaced]

/-- What can follow the last statement of a body. -/
def EndsBody (rest : List Lexeme) : Prop := ∀ l ∈ rest.head?, l = .symbol .closeBrace

/-- What can follow a statement. -/
def EndsStmt (s : Stmt) (rest : List Lexeme) : Prop :=
  EndsChoice rest ∧ (s.isOpen = true → EndsBody rest)

theorem EndsBody.endsChoice {rest : List Lexeme} (h : EndsBody rest) : EndsChoice rest := by
  intro hr
  cases h _ hr

theorem EndsBody.endsStmt {rest : List Lexeme} (h : EndsBody rest) (s : Stmt) : EndsStmt s rest :=
  ⟨h.endsChoice, fun _ => h⟩

theorem refuses_exprStmt {c : Cursor} (hc : (c.lexeme? 0).any startsOperand = false)
    (hop : (c.lexeme? 0).bind unaryOp? = none) (depth : Nat) :
    Refuses (parse depth .exprStmt) c := by
  cases depth with
  | zero => exact refuses_tooDeep _ c
  | succ depth =>
    obtain ⟨e, he⟩ := refuses_expr hc hop depth true
    refine ⟨e, ?_⟩
    change exprStmtRule (parse depth) c = _
    simp [exprStmtRule, here, he, Except.bind]

theorem refuses_stmt {c : Cursor}
    (hc : c.lexeme? 0 = none ∨ c.lexeme? 0 = some (.symbol .closeBrace) ∨
      c.lexeme? 0 = some (.symbol .semicolon) ∨ c.lexeme? 0 = some (.keyword .elseKw))
    (depth : Nat) : Refuses (parse depth .stmt) c := by
  cases depth with
  | zero => exact refuses_tooDeep _ c
  | succ depth =>
    have hexpr : Refuses (parse depth .exprStmt) c := by
      rcases hc with hc | hc | hc | hc <;>
        exact refuses_exprStmt (by rw [hc]; rfl) (by rw [hc]; rfl) depth
    obtain ⟨e, he⟩ := hexpr
    refine ⟨e, ?_⟩
    change stmtRule (parse depth) c = _
    rcases hc with hc | hc | hc | hc <;> simp [stmtRule, current, hc, he]

/-- A statement starts with a lexeme that neither ends a body nor is skipped between statements. -/
theorem stmt_starts {depth : Nat} {s : Stmt} {c : Cursor}
    (h : parse depth .stmt (.flat ls) = .ok (s, c)) :
    ∃ x tail, ls = x :: tail ∧ x ≠ .symbol .closeBrace ∧ x ≠ .symbol .semicolon ∧
      x ≠ .keyword .elseKw := by
  have hnot : ¬ Refuses (parse depth .stmt) (.flat ls) := by
    rintro ⟨e, he⟩
    rw [h] at he
    cases he
  have hstarts := fun hc => hnot (refuses_stmt hc depth)
  rw [Cursor.lexeme?_flat] at hstarts
  cases ls with
  | nil => exact absurd (.inl rfl) hstarts
  | cons x tail =>
    simp only [List.head?_cons, reduceCtorEq, Option.some.injEq, false_or] at hstarts
    exact ⟨x, tail, rfl, fun h => hstarts (.inl h), fun h => hstarts (.inr (.inl h)),
      fun h => hstarts (.inr (.inr h))⟩

/-- Statements that are read one after another, and the lexemes that follow the last. -/
inductive ReadsBody (depth : Nat) : List Lexeme → List Stmt → List Lexeme → Prop
  | nil (rest : List Lexeme) : ReadsBody depth rest [] rest
  | cons {ls next rest : List Lexeme} {s : Stmt} {body : List Stmt}
    (h : parse depth .stmt (.flat ls) = .ok (s, .flat next)) (hlt : next.length < ls.length)
    (hbody : ReadsBody depth next body rest) : ReadsBody depth ls (s :: body) rest

theorem ReadsBody.endsChoice {depth : Nat} {body : List Stmt} {rest : List Lexeme}
    (h : ReadsBody depth ls body rest) (hrest : EndsBody rest) : EndsChoice ls := by
  cases h with
  | nil => exact hrest.endsChoice
  | cons h _ _ =>
    obtain ⟨x, tail, rfl, _, _, helse⟩ := stmt_starts h
    simpa [EndsChoice] using helse

theorem ReadsBody.roundsTo {depth : Nat} {body : List Stmt} {rest : List Lexeme}
    {round : Parse (Round Stmt)}
    (hitem : ∀ x tail, x ≠ .symbol .closeBrace → x ≠ .symbol .semicolon →
      round (.flat (x :: tail)) = (Round.item <$> parse depth .stmt) (.flat (x :: tail)))
    (hstop : round (.flat rest) = .ok (.stop, .flat rest)) (h : ReadsBody depth ls body rest) :
    RoundsTo round (.flat ls) body (.flat rest) := by
  induction h with
  | nil => exact .stop hstop
  | cons h hlt _ ih =>
    refine .item ?_ (by simpa using hlt) (ih hstop)
    obtain ⟨x, tail, rfl, hclose, hsemi, _⟩ := stmt_starts h
    simp [hitem x tail hclose hsemi, h]

theorem ReadsBody.block {depth : Nat} {body : List Stmt} {rest : List Lexeme}
    (h : ReadsBody depth ls body (.symbol .closeBrace :: rest)) :
    blockRule (parse depth) (.flat (.symbol .openBrace :: ls)) = .ok (body, .flat rest) := by
  unfold blockRule
  rw [bind_apply, symbol, expect_cons, bind_ok, bind_apply, RoundsTo.many (h.roundsTo ?_ ?_)]
  · simp
  · intro x tail hclose hsemi
    simp [hclose, hsemi]
  · simp

theorem ReadsBody.program {depth : Nat} {body : List Stmt} (h : ReadsBody depth ls body []) :
    programRule (parse depth) (.flat ls) = .ok (body, .flat []) := by
  refine RoundsTo.many (h.roundsTo ?_ ?_)
  · intro x tail _ hsemi
    simp [hsemi]
  · simp

section Blocks

variable {body : List Stmt} {bs : List Lexeme}

/-- The statements of a body are read, whatever the body stands in. -/
def ReadsStmts (bs : List Lexeme) (body : List Stmt) : Prop :=
  ∀ᶠ depth in atTop, ∀ rest, EndsBody rest → ReadsBody depth (bs ++ rest) body rest

theorem ReadsStmts.block (h : ReadsStmts bs body) :
    Reads .block (fun _ => True) (inBraces bs) body := by
  refine .of_rule ?_
  filter_upwards [h] with depth h rest _
  have hbody := h (.symbol .closeBrace :: rest) (by simp [EndsBody])
  rw [inBraces_append]
  exact hbody.block

theorem ReadsStmts.nil : ReadsStmts [] [] :=
  .of_forall fun _ rest _ => .nil rest

theorem ReadsStmts.cons {s : Stmt} (hs : Reads .stmt (EndsStmt s) ls s)
    (hbody : ReadsStmts bs body) (hopen : s.isOpen = true → bs = []) :
    ReadsStmts (ls ++ bs) (s :: body) := by
  filter_upwards [hs, hbody] with depth hs hbody rest hrest
  have hnext := hbody rest hrest
  have hends : EndsStmt s (bs ++ rest) := by
    refine ⟨hnext.endsChoice hrest, fun ho => ?_⟩
    rw [hopen ho]
    exact hrest
  have hread := hs (bs ++ rest) hends
  rw [List.append_assoc]
  refine .cons hread ?_ hnext
  -- A statement takes a lexeme, since a closing brace can follow it but cannot start it.
  have hbrace := hs [.symbol .closeBrace] (EndsBody.endsStmt (by simp [EndsBody]) s)
  obtain ⟨x, tail, hx, hclose, -, -⟩ := stmt_starts hbrace
  cases ls with
  | nil =>
    obtain ⟨rfl, -⟩ := List.cons.inj hx
    exact absurd rfl hclose
  | cons l ls =>
    simp only [List.cons_append, List.length_append, List.length_cons]
    omega

end Blocks

section Choices

variable {condition : Expr} {callable : Bool} {level : Level} {bs es : List Lexeme}
  {thenBody : List Stmt}

theorem reads_conditional {elseBody : Option (List Stmt)}
    (hcondition : Opens false callable level ls condition) (hthen : ReadsStmts bs thenBody)
    (helse : ∀ᶠ depth in atTop, ∀ rest, EndsChoice rest →
      elseBranch (parse depth) (.flat (es ++ rest)) = .ok (elseBody, .flat rest)) :
    Reads .conditional EndsChoice (.keyword .ifKw :: (ls ++ (inBraces bs ++ es)))
      ⟨.start, condition, thenBody, elseBody⟩ := by
  refine .of_rule ?_
  filter_upwards [hcondition.expr, hthen.block, helse] with depth hcondition hthen helse rest hrest
  have hcondition := hcondition (inBraces bs ++ (es ++ rest)) (by simp [Ends, Lexeme.ends])
  have hthen := hthen (es ++ rest) trivial
  rw [inBraces_append] at hcondition hthen
  change conditionalRule (parse depth) _ = _
  simp [conditionalRule, hcondition, hthen, helse rest hrest]

theorem elseBranch_none :
    ∀ᶠ depth in atTop, ∀ rest, EndsChoice rest →
      elseBranch (parse depth) (.flat ([] ++ rest)) = .ok (none, .flat rest) := by
  refine .of_forall fun depth rest hrest => ?_
  have hskip := skip_flat _ _ hrest
  simp [elseBranch, hskip]

theorem elseBranch_choice {c : Conditional}
    (h : Reads .conditional EndsChoice (.keyword .ifKw :: ls) c) :
    ∀ᶠ depth in atTop, ∀ rest, EndsChoice rest →
      elseBranch (parse depth) (.flat ((.keyword .elseKw :: .keyword .ifKw :: ls) ++ rest)) =
        .ok (some [.conditional c], .flat rest) := by
  filter_upwards [h] with depth h rest hrest
  have hread := h rest hrest
  rw [List.cons_append] at hread
  simp [elseBranch, hread]

theorem elseBranch_body {body : List Stmt} (h : ReadsStmts bs body) :
    ∀ᶠ depth in atTop, ∀ rest, EndsChoice rest →
      elseBranch (parse depth) (.flat ((.keyword .elseKw :: inBraces bs) ++ rest)) =
        .ok (some body, .flat rest) := by
  filter_upwards [h.block] with depth h rest _
  have hread := h rest trivial
  rw [inBraces_append] at hread
  simp [elseBranch, hread]

end Choices

section Stmts

variable {e : Expr} {callable : Bool} {level : Level} {follow : List Lexeme → Prop} {s : Stmt}

/-- A statement that its first lexeme tells from all others. -/
theorem Reads.stmt (goal : Goal Stmt) {l : Lexeme} (h : Reads goal follow (l :: ls) s)
    (hrule : ∀ (read : Reader) (rest : List Lexeme),
      stmtRule read (.flat (l :: rest)) = read goal (.flat (l :: rest))) :
    Reads .stmt follow (l :: ls) s := by
  refine .of_rule ?_
  filter_upwards [h] with depth h rest hrest
  exact (hrule (parse depth) (ls ++ rest)).trans (h rest hrest)

theorem reads_let (name : String) (type : Option TypeExpr) (h : Opens true callable level ls e) :
    Reads .stmt (fun _ => True)
      (.keyword .letKw :: .ident name :: ((type.elim [] fun t => .symbol .colon :: t.lexemes) ++
        .symbol .assign :: (ls ++ [.symbol .semicolon]))) (.letIn .start name type e) := by
  refine Reads.stmt .letStmt (.of_rule ?_) fun _ _ => rfl
  cases type with
  | none =>
    filter_upwards [h.expr] with depth h rest _
    have hread := h (.symbol .semicolon :: rest) (by simp [Ends, Lexeme.ends])
    change letRule (parse depth) _ = _
    simp [letRule, hread]
  | some t =>
    filter_upwards [h.expr, reads_type t] with depth h htype rest _
    have hread := h (.symbol .semicolon :: rest) (by simp [Ends, Lexeme.ends])
    change letRule (parse depth) _ = _
    simp [letRule, htype _ trivial, hread]

theorem reads_while {bs : List Lexeme} {body : List Stmt} (h : Opens false callable level ls e)
    (hbody : ReadsStmts bs body) :
    Reads .stmt (fun _ => True) (.keyword .whileKw :: (ls ++ inBraces bs))
      (.whileLoop .start e body) := by
  refine Reads.stmt .whileStmt (.of_rule ?_) fun _ _ => rfl
  filter_upwards [h.expr, hbody.block] with depth h hbody rest _
  have hread := h (inBraces bs ++ rest) (by simp [Ends, Lexeme.ends])
  have hbody := hbody rest trivial
  rw [inBraces_append] at hread hbody
  change whileRule (parse depth) _ = _
  simp [whileRule, hread, hbody]

theorem reads_return_none :
    Reads .stmt (fun _ => True) [.keyword .returnKw, .symbol .semicolon] (.ret .start none) := by
  refine Reads.stmt .returnStmt (.of_rule (.of_forall fun depth rest _ => ?_)) fun _ _ => rfl
  change returnRule (parse depth) _ = _
  simp [returnRule, endStmt]

theorem reads_return_some (h : Opens true callable level ls e) :
    Reads .stmt (fun _ => True) (.keyword .returnKw :: (ls ++ [.symbol .semicolon]))
      (.ret .start (some e)) := by
  refine Reads.stmt .returnStmt (.of_rule ?_) fun _ _ => rfl
  filter_upwards [h.expr] with depth h rest _
  have hread := h (.symbol .semicolon :: rest) (by simp [Ends, Lexeme.ends])
  obtain ⟨x, tail, hx, hstarts⟩ := expr_starts hread
  have hsemi : x ≠ .symbol .semicolon := by
    rintro rfl
    cases hstarts
  have hclose : x ≠ .symbol .closeBrace := by
    rintro rfl
    cases hstarts
  change returnRule (parse depth) _ = _
  rw [hx] at hread
  simp [returnRule, endStmt, hx, hsemi, hclose, hread]

theorem reads_block_stmt {bs : List Lexeme} {body : List Stmt} (h : ReadsStmts bs body) :
    Reads .stmt (fun _ => True) (inBraces bs) (.block .start body) := by
  refine .of_rule ?_
  filter_upwards [h.block] with depth h rest _
  have hread := h rest trivial
  rw [inBraces_append] at hread ⊢
  change stmtRule (parse depth) _ = _
  simp [stmtRule, hread]

theorem reads_choice_stmt {c : Conditional}
    (h : Reads .conditional EndsChoice (.keyword .ifKw :: ls) c) :
    Reads .stmt EndsChoice (.keyword .ifKw :: ls) (.conditional c) := by
  refine .of_rule ?_
  filter_upwards [h] with depth h rest hrest
  have hread := h rest hrest
  rw [List.cons_append] at hread ⊢
  change stmtRule (parse depth) _ = _
  simp [stmtRule, hread]

theorem stmtRule_expr {l : Lexeme} (hl : startsExpr l = true) (hif : l ≠ .keyword .ifKw)
    (read : Reader) (rest : List Lexeme) :
    stmtRule read (.flat (l :: rest)) = read .exprStmt (.flat (l :: rest)) := by
  cases l with
  | symbol s => cases s <;> first | rfl | cases hl
  | keyword k => cases k <;> first | rfl | exact absurd rfl hif | cases hl
  | _ => rfl

/-- A statement that starts with an expression is told from all others by its first lexeme. -/
theorem Reads.exprStmt (h : Reads .exprStmt follow ls s)
    (hif : ∃ l tail, ls = l :: tail ∧ l ≠ .keyword .ifKw) : Reads .stmt follow ls s := by
  refine .of_rule ?_
  filter_upwards [h] with depth h rest hrest
  have hread := h rest hrest
  obtain ⟨l, tail, rfl, hif⟩ := hif
  obtain ⟨l', tail', hl, hstarts⟩ :=
    starts_of_refuses (fun _ hc hop => refuses_exprStmt hc hop depth) hread
  obtain ⟨rfl, -⟩ := List.cons.inj hl
  exact (stmtRule_expr hstarts hif (parse depth) (tail ++ rest)).trans hread

theorem reads_expr_stmt (terminated : Bool) (h : Opens true callable level ls e)
    (hif : ∃ l tail, ls = l :: tail ∧ l ≠ .keyword .ifKw) :
    Reads .stmt (EndsStmt (.expr .start e terminated))
      (ls ++ if terminated then [.symbol .semicolon] else []) (.expr .start e terminated) := by
  refine Reads.exprStmt (.of_rule ?_) ?_
  · filter_upwards [h.expr] with depth h rest hrest
    change exprStmtRule (parse depth) _ = _
    cases terminated with
    | true =>
      have hread := h (.symbol .semicolon :: rest) (by simp [Ends, Lexeme.ends])
      simp [exprStmtRule, endStmt, hread]
    | false =>
      cases rest with
      | nil =>
        have hread := h [] (by simp [Ends])
        simp only [List.append_nil] at hread
        simp [exprStmtRule, endStmt, hread]
      | cons l rest =>
        obtain rfl : l = .symbol .closeBrace := hrest.2 rfl l rfl
        have hread := h (.symbol .closeBrace :: rest) (by simp [Ends, Lexeme.ends])
        simp [exprStmtRule, endStmt, hread]
  · obtain ⟨l, tail, rfl, hif⟩ := hif
    exact ⟨l, _, rfl, hif⟩

theorem reads_assign {target : Place} {value : Expr} {vs : List Lexeme}
    (h : Opens true callable level ls e) (hplace : place? e = some target)
    {callable' : Bool} {level' : Level} (hvalue : Opens true callable' level' vs value)
    (hif : ∃ l tail, ls = l :: tail ∧ l ≠ .keyword .ifKw) :
    Reads .stmt (fun _ => True) (ls ++ .symbol .assign :: (vs ++ [.symbol .semicolon]))
      (.assign .start target value) := by
  refine Reads.exprStmt (.of_rule ?_) ?_
  · filter_upwards [h.expr, hvalue.expr] with depth h hvalue rest hrest
    have hread := h (.symbol .assign :: (vs ++ .symbol .semicolon :: rest))
      (by simp [Ends, Lexeme.ends])
    have hvalue := hvalue (.symbol .semicolon :: rest) (by simp [Ends, Lexeme.ends])
    change exprStmtRule (parse depth) _ = _
    simp [exprStmtRule, endStmt, hread, hplace, hvalue]
  · obtain ⟨l, tail, rfl, hif⟩ := hif
    exact ⟨l, _, rfl, hif⟩

end Stmts

section Declarations

variable {follow : List Lexeme → Prop}

/-- A declaration is read as a statement. -/
theorem Reads.declaration {α : Type} {goal : Goal α} {a : α} {k : Keyword} {wrap : α → Stmt}
    (h : Reads goal follow (.keyword k :: ls) a)
    (hstmt : ∀ (read : Reader) (rest : List Lexeme),
      stmtRule read (.flat (.keyword k :: rest)) = read .decl (.flat (.keyword k :: rest)))
    (hdecl : ∀ (read : Reader) (rest : List Lexeme),
      declRule read (.flat (.keyword k :: rest)) =
        (wrap <$> read goal) (.flat (.keyword k :: rest))) :
    Reads .stmt follow (.keyword k :: ls) (wrap a) := by
  refine Reads.stmt .decl (.of_rule ?_) hstmt
  filter_upwards [h] with depth h rest hrest
  have hread := h rest hrest
  rw [List.cons_append] at hread ⊢
  refine (hdecl (parse depth) (ls ++ rest)).trans ?_
  rw [map_apply, hread, bind_ok]

theorem reads_receiver (r : Receiver) :
    Reads .receiver (fun _ => True) r.lexemes (some r) := by
  refine .of_rule (.of_forall fun depth rest _ => ?_)
  change receiverRule _ = _
  have hself : (Lexeme.keyword .selfKw).spelling = "self" := rfl
  have hmut : (Lexeme.keyword .mutKw).spelling = "mut" := rfl
  cases r <;> simp [receiverRule, Receiver.lexemes, hself, hmut]

theorem reads_no_receiver (params : List Param) :
    ∀ᶠ depth in atTop, ∀ rest : List Lexeme,
      parse depth .receiver
          (.flat (listed (params.map Param.lexemes) ++ .symbol .closeParen :: rest)) =
        .ok (none, .flat (listed (params.map Param.lexemes) ++ .symbol .closeParen :: rest)) := by
  rw [← map_add_atTop_eq_nat 1, eventually_map]
  refine .of_forall fun depth rest => ?_
  change receiverRule _ = _
  cases params with
  | nil => simp [receiverRule, listed]
  | cons p params => cases params <;> simp [receiverRule, listed, Param.lexemes]

theorem reads_fnDecl (name : String) (receiver : Option Receiver) (params : List Param)
    (ret : TypeExpr) {bs : List Lexeme} {body : List Stmt} (hbody : ReadsStmts bs body) :
    Reads .fnDecl (fun _ => True)
      (.keyword .fnKw :: .ident name ::
        (inParens (receiver.toList.map Receiver.lexemes ++ params.map Param.lexemes) ++
          .symbol .arrow :: (ret.lexemes ++ inBraces bs)))
      ⟨.start, name, receiver, params.map unplaced.param, ret, body⟩ := by
  refine .of_rule ?_
  have hitems := eventually_forall₂_map params fun p _ => readsItem_param p
  cases receiver with
  | none =>
    filter_upwards [hitems, reads_type ret, hbody.block, reads_no_receiver params]
      with depth hitems hret hbody hreceiver rest _
    have hbody := hbody rest trivial
    rw [inBraces_append] at hbody
    change fnDeclRule (parse depth) _ = _
    simp [fnDeclRule, hreceiver, listUntil_listed (by decide) hitems, hret _ trivial, hbody]
  | some r =>
    filter_upwards [hitems, reads_type ret, hbody.block, reads_receiver r]
      with depth hitems hret hbody hreceiver rest _
    have hbody := hbody rest trivial
    rw [inBraces_append] at hbody
    have hlist := listUntil_listed (by decide) hitems
    change fnDeclRule (parse depth) _ = _
    cases params with
    | nil =>
      simp only [List.map_nil, listed, List.nil_append] at hlist
      simp [fnDeclRule, listed, hreceiver _ trivial, hlist, hret _ trivial, hbody]
    | cons p params =>
      simp only [List.map_cons] at hlist
      simp [fnDeclRule, listed, hreceiver _ trivial, hlist, hret _ trivial, hbody]

/-- Functions that are read one after another up to a closing brace. -/
def ReadsFns (fs : List Lexeme) (decls : List FnDecl) : Prop :=
  ∀ᶠ depth in atTop, ∀ rest : List Lexeme,
    RoundsTo (do
        if ← seesSymbol .closeBrace then pure .stop
        else
          let _ ← skip (.keyword .pubKw)
          let decl ← parse depth .fnDecl
          pure (.item decl))
      (.flat (fs ++ .symbol .closeBrace :: rest)) decls (.flat (.symbol .closeBrace :: rest))

theorem ReadsFns.nil : ReadsFns [] [] :=
  .of_forall fun _ rest => .stop (by simp)

theorem ReadsFns.cons {fs : List Lexeme} {decl : FnDecl} {decls : List FnDecl}
    (hdecl : Reads .fnDecl (fun _ => True) (.keyword .fnKw :: ls) decl)
    (hdecls : ReadsFns fs decls) : ReadsFns (.keyword .fnKw :: (ls ++ fs)) (decl :: decls) := by
  filter_upwards [hdecl, hdecls] with depth hdecl hdecls rest
  have hread := hdecl (fs ++ .symbol .closeBrace :: rest) trivial
  rw [List.cons_append] at hread
  refine .item ?_ ?_ (hdecls rest)
  · simp [hread]
  · simp only [Cursor.length_flat, List.cons_append, List.length_append, List.length_cons]
    omega

theorem reads_implBlock (type : String) {fs : List Lexeme} {methods : List FnDecl}
    (h : ReadsFns fs methods) :
    Reads .implBlock (fun _ => True) (.keyword .implKw :: .ident type :: inBraces fs)
      ⟨.start, type, methods⟩ := by
  refine .of_rule ?_
  filter_upwards [h] with depth h rest _
  change implBlockRule (parse depth) _ = _
  have hmany := (h rest).many
  unfold implBlockRule
  simp only [bind_apply, here_flat, bind_ok, keyword, expect_cons, ident_cons, symbol,
    List.cons_append, inBraces_append, hmany, pure_apply]

end Declarations

end Rustlet.Grammar
