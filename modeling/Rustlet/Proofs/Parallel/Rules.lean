import Rustlet.Proofs.Parallel
import Rustlet.Proofs.Proper

/-! Every rule of the grammar keeps two readings abreast if the readings of its parts are. -/
namespace Rustlet

/-- What a construct gives, relabelled. -/
@[simp] def Relabelling.result (ρ : Relabelling) (owner : Option String) :
    {α : Type} → Grammar.Goal α → α → α
  | _, .program => List.map (ρ.stmt owner)
  | _, .stmt => ρ.stmt owner
  | _, .block => List.map (ρ.stmt owner)
  | _, .decl => ρ.stmt owner
  | _, .structDecl => ρ.structDecl
  | _, .implBlock => ρ.implBlock
  | _, .fnDecl => ρ.fnDecl owner
  | _, .receiver => id
  | _, .param => ρ.param
  | _, .type => id
  | _, .letStmt => ρ.stmt owner
  | _, .conditional => ρ.choice owner
  | _, .whileStmt => ρ.stmt owner
  | _, .returnStmt => ρ.stmt owner
  | _, .exprStmt => ρ.stmt owner
  | _, .expr _ => ρ.expr owner
  | _, .disjunction _ => ρ.expr owner
  | _, .conjunction _ => ρ.expr owner
  | _, .comparison _ => ρ.expr owner
  | _, .sum _ => ρ.expr owner
  | _, .product _ => ρ.expr owner
  | _, .unary _ => ρ.expr owner
  | _, .postfixed _ => ρ.expr owner
  | _, .primary _ => ρ.expr owner
  | _, .args => List.map (ρ.expr owner)
  | _, .structLit _ => ρ.expr owner

namespace Parallel

open Grammar Parse

variable {P : Parallel} {read read' : Reader} {c c' : Cursor}

variable (P) in
/-- Two readers that stay abreast on every construct. -/
def KeepsAbreast (read read' : Reader) : Prop :=
  ∀ {α : Type} (goal : Goal α),
    P.Together (P.Alike fun ρ owner => ρ.result owner goal) (read goal) (read' goal)

variable (hread : P.KeepsAbreast read read')

include hread in
theorem KeepsAbreast.type : P.Together Eq (read .type) (read' .type) :=
  (hread .type).mono fun _ _ h => (h none).symm

include hread in
theorem KeepsAbreast.receiver : P.Together Eq (read .receiver) (read' .receiver) :=
  (hread .receiver).mono fun _ _ h => (h none).symm

section Expressions

theorem together_leftJoined {operand operand' : Parse Expr}
    {operator? : Lexeme → Option (Expr → Expr → Expr)}
    (ho : P.Together (P.Alike Relabelling.expr) operand operand') (hop : Joins operator?) :
    P.Together (P.Alike Relabelling.expr) (leftJoined operand operator?)
      (leftJoined operand' operator?) := by
  refine .bind ho fun first first' hfirst => together_extended (fun left left' hleft => ?_) hfirst
  refine .bind together_current fun l l' hl => ?_
  cases hl with
  | same l =>
    cases hj : l.bind operator? with
    | none => exact .pure .none
    | some join =>
      refine .bind_eq together_advance fun _ => .bind ho fun right right' hright => ?_
      obtain ⟨lexeme, rfl, hlexeme⟩ := Option.bind_eq_some_iff.1 hj
      rcases hop.joined lexeme join hlexeme with ⟨op, rfl⟩ | ⟨op, rfl⟩ <;>
        exact .pure (.some (by simp_all))
  | @text s s' hs =>
    simp only [Option.bind_some, hop.text]
    exact .pure .none

theorem bind_comparisonOp?_eq {l l' : Option Lexeme} (h : SameLexeme P.content l l') :
    l'.bind comparisonOp? = l.bind comparisonOp? := by
  cases h <;> rfl

theorem bind_unaryOp?_eq {l l' : Option Lexeme} (h : SameLexeme P.content l l') :
    l'.bind unaryOp? = l.bind unaryOp? := by
  cases h <;> rfl

include hread

theorem together_typeRule : P.Together Eq (typeRule read) (typeRule read') := by
  refine .bind_eq (together_skipSymbol _) fun amp => ?_
  split
  · refine .bind_eq (together_skipKeyword _) fun isMut => ?_
    exact .bind_eq hread.type fun target => .pure rfl
  · refine .bind_eq (together_skipSymbol _) fun paren => ?_
    split
    · exact .bind_eq (together_symbol _) fun _ => .pure rfl
    · refine .bind_eq (together_skipKeyword _) fun isSelf => ?_
      split
      · exact .pure rfl
      · exact .bind_eq together_ident fun name => .pure rfl

theorem together_comparisonRule (literals : Bool) :
    P.Together (P.Alike Relabelling.expr) (comparisonRule read literals)
      (comparisonRule read' literals) := by
  refine .bind (hread (.sum literals)) fun left left' hleft => ?_
  refine .bind together_current fun l l' hl => ?_
  rw [bind_comparisonOp?_eq hl]
  split
  · exact .pure hleft
  · refine .bind_eq together_advance fun _ => ?_
    refine .bind (hread (.sum literals)) fun right right' hright => ?_
    refine .bind together_current fun m m' hm => ?_
    rw [bind_comparisonOp?_eq hm]
    split
    · exact together_unexpected _
    · exact .pure (by simp_all)

theorem together_unaryRule (literals : Bool) :
    P.Together (P.Alike Relabelling.expr) (unaryRule read literals) (unaryRule read' literals) := by
  refine .bind together_current fun l l' hl => ?_
  rw [bind_unaryOp?_eq hl]
  split
  · exact hread (.postfixed literals)
  · refine .bind together_here fun pos pos' hpos => .bind_eq together_advance fun _ =>
      .bind (hread (.unary literals)) fun operand operand' hoperand => .pure (by simp_all)

theorem together_suffix {e e' : Expr}
    (he : P.Alike Relabelling.expr e e') :
    P.Together (SameOption (P.Alike Relabelling.expr)) (suffix read e) (suffix read' e') := by
  refine .bind_eq (together_skipSymbol _) fun dot => ?_
  split
  · refine .bind together_here fun pos pos' hpos => .bind_eq together_ident fun name =>
      .bind_eq (together_seesSymbol _) fun paren => ?_
    split
    · exact .bind (hread .args) fun args args' hargs => .pure (.some (by simp_all))
    · exact .pure (.some (by simp_all))
  · refine .bind_eq (together_seesSymbol _) fun paren => ?_
    split
    · exact .bind together_here fun pos pos' hpos =>
        .bind (hread .args) fun args args' hargs => .pure (.some (by simp_all))
    · exact .pure .none

theorem together_postfixedRule (literals : Bool) :
    P.Together (P.Alike Relabelling.expr) (postfixedRule read literals)
      (postfixedRule read' literals) :=
  .bind (hread (.primary literals)) fun _ _ he =>
    together_extended (fun _ _ he => together_suffix hread he) he

theorem together_argsRule :
    P.Together (P.Alike fun ρ owner => ρ.result owner .args) (argsRule read) (argsRule read') :=
  .bind_eq (together_symbol _) fun _ =>
    .bind (together_listUntil _ (hread (.expr true))) fun _ _ hargs =>
      .bind_eq (together_symbol _) fun _ => .pure (Alike.map hargs)

theorem together_fieldInit :
    P.Together (P.Alike Relabelling.init) (fieldInit read) (fieldInit read') := by
  refine .bind together_here fun pos pos' hpos => .bind_eq together_ident fun name =>
    .bind_eq (together_skipSymbol _) fun colon => ?_
  split
  · exact .bind (hread (.expr true)) fun value value' hvalue => .pure (by simp_all)
  · refine .bind_eq (together_seesSymbol _) fun comma =>
      .bind_eq (together_seesSymbol _) fun brace => ?_
    split
    · exact .pure (by simp_all)
    · exact together_unexpected _

theorem together_structLitRule (type : TypePath) :
    P.Together (P.Alike Relabelling.expr) (structLitRule read type) (structLitRule read' type) := by
  refine .bind together_here fun pos pos' hpos => .bind_eq together_advance fun _ =>
    .bind_eq (together_symbol _) fun _ =>
    .bind (together_listUntil _ (together_fieldInit hread)) fun fields fields' hfields =>
    .bind_eq (together_symbol _) fun _ => .pure ?_
  have hmap := Alike.map hfields
  simp_all

theorem together_pathCall (type : TypePath) :
    P.Together (P.Alike Relabelling.expr) (pathCall read type) (pathCall read' type) := by
  refine .bind together_here fun pos pos' hpos => .bind_eq together_advance fun _ =>
    .bind_eq together_advance fun _ => .bind_eq together_ident fun name =>
    .bind_eq (together_seesSymbol _) fun paren => ?_
  split
  · exact .bind (hread .args) fun args args' hargs => .pure (by simp_all)
  · exact together_unexpected _

/-- Behind a name, look-ahead decides alike. -/
theorem matches_named (h : P.At c c') {name : String}
    (hc : c.lexeme? 0 = some (.ident name)) (literals : Bool) :
    P.Matches (P.Alike Relabelling.expr) (named read literals name c)
      (named read' literals name c') := by
  have hc' : c'.lexeme? 0 = some (.ident name) := ((h.lexeme 0).eq_some_iff (by simp)).2 hc
  have ha := h.ahead
  simp only [Cursor.ahead, hc, hc', List.cons.injEq, and_true] at ha
  obtain ⟨hcalls, hpath, hopen⟩ := ha
  change P.Matches _ ((if (c.spells 1 "!" && c.spells 2 "(") = true then _ else _ : Parse Expr) c)
    ((if (c'.spells 1 "!" && c'.spells 2 "(") = true then _ else _ : Parse Expr) c')
  rw [hcalls]
  split
  · refine Together.run (.bind together_here fun pos pos' hpos => .bind_eq together_advance fun _ =>
      .bind_eq together_advance fun _ => .bind (hread .args) fun args args' hargs =>
      .pure (by simp_all)) c c' h
  · change P.Matches _ ((if c.spells 1 "::" = true then _ else _ : Parse Expr) c)
      ((if c'.spells 1 "::" = true then _ else _ : Parse Expr) c')
    rw [hpath]
    split
    · exact (together_pathCall hread _).run c c' h
    · change P.Matches _ ((if (literals && c.opensFields) = true then _ else _ : Parse Expr) c)
        ((if (literals && c'.opensFields) = true then _ else _ : Parse Expr) c')
      rw [hopen]
      split
      · exact (hread (.structLit (.named name))).run c c' h
      · exact Together.run (.bind together_here fun pos pos' hpos =>
          .bind_eq together_advance fun _ => .pure (by simp_all)) c c' h

/-- Behind `Self`, look-ahead decides alike. -/
theorem matches_selfTyped (h : P.At c c')
    (hc : c.lexeme? 0 = some (.keyword .selfTypeKw)) (literals : Bool) :
    P.Matches (P.Alike Relabelling.expr) (selfTyped read literals c)
      (selfTyped read' literals c') := by
  have hc' : c'.lexeme? 0 = some (.keyword .selfTypeKw) :=
    ((h.lexeme 0).eq_some_iff (by simp)).2 hc
  have ha := h.ahead
  simp only [Cursor.ahead, hc, hc', List.cons.injEq, and_true] at ha
  obtain ⟨hpath, hopen⟩ := ha
  change P.Matches _ ((if c.spells 1 "::" = true then _ else _ : Parse Expr) c)
    ((if c'.spells 1 "::" = true then _ else _ : Parse Expr) c')
  rw [hpath]
  split
  · exact (together_pathCall hread _).run c c' h
  · change P.Matches _
      ((if (literals && c.spells 1 "\x7b") = true then _ else _ : Parse Expr) c)
      ((if (literals && c'.spells 1 "\x7b") = true then _ else _ : Parse Expr) c')
    rw [hopen]
    split
    · exact (hread (.structLit .selfType)).run c c' h
    · exact (together_unexpected _).run c c' h

theorem together_primaryRule (literals : Bool) :
    P.Together (P.Alike Relabelling.expr) (primaryRule read literals)
      (primaryRule read' literals) := by
  refine .bind together_here fun pos pos' hpos => ⟨fun c c' h => ?_⟩
  have hl := h.lexeme 0
  refine matches_current_bind ?_
  generalize hc : c.lexeme? 0 = l at hl ⊢
  generalize c'.lexeme? 0 = l' at hl ⊢
  cases hl with
  | text hs => exact Together.run (.bind_eq together_advance fun _ => .pure (by simp_all)) c c' h
  | same l =>
    split
    · exact Together.run (.bind_eq together_advance fun _ => .pure (by simp_all)) c c' h
    · exact Together.run (.bind_eq together_advance fun _ => .pure (by simp_all)) c c' h
    · exact Together.run (.bind_eq together_advance fun _ => .pure (by simp_all)) c c' h
    · exact Together.run (.bind_eq together_advance fun _ => .pure (by simp_all)) c c' h
    · exact Together.run (.bind (hread .conditional) fun _ _ hchoice => .pure (by simp_all)) c c' h
    · exact Together.run (.bind_eq together_advance fun _ => .pure (by simp_all)) c c' h
    · exact matches_selfTyped hread h hc literals
    · exact matches_named hread h hc literals
    · refine Together.run (.bind_eq together_advance fun _ => ?_) c c' h
      exact .bind (hread (.expr true)) fun _ _ he => .bind_eq (together_symbol _) fun _ => .pure he
    · exact (together_unexpected _).run c c' h

end Expressions

section Statements

theorem together_endStmt : P.Together Eq endStmt endStmt := by
  refine .bind_eq (together_skipSymbol _) fun semicolon => ?_
  split
  · exact .pure rfl
  · refine .bind_eq (together_seesSymbol _) fun brace => .bind_eq together_atEnd fun stop => ?_
    split
    · exact .pure rfl
    · exact together_unexpected _

include hread

/-- A round of a body that is not at its end. -/
theorem together_bodyRound : P.Together (SameRound (P.Alike Relabelling.stmt))
    (do if ← skip (.symbol .semicolon) then pure .pass
        else
          let s ← read .stmt
          pure (.item s))
    (do if ← skip (.symbol .semicolon) then pure .pass
        else
          let s ← read' .stmt
          pure (.item s)) := by
  refine .bind_eq (together_skipSymbol _) fun semicolon => ?_
  split
  · exact .pure .pass
  · exact .bind (hread .stmt) fun _ _ hs => .pure (.item hs)

theorem together_programRule :
    P.Together (P.Alike fun ρ owner => ρ.result owner .program) (programRule read)
      (programRule read') := by
  refine (together_many ?_).mono fun _ _ h => Alike.map h
  refine .bind_eq together_atEnd fun stop => ?_
  split
  · exact .pure .stop
  · exact together_bodyRound hread

theorem together_blockRule :
    P.Together (P.Alike fun ρ owner => ρ.result owner .block) (blockRule read)
      (blockRule read') := by
  refine .bind_eq (together_symbol _) fun _ => .bind (together_many ?_) fun _ _ hbody =>
    .bind_eq (together_symbol _) fun _ => .pure (Alike.map hbody)
  refine .bind_eq (together_seesSymbol _) fun brace => ?_
  split
  · exact .pure .stop
  · refine .bind_eq together_atEnd fun stop => ?_
    split
    · exact together_unexpected _
    · exact together_bodyRound hread

theorem together_stmtRule :
    P.Together (P.Alike Relabelling.stmt) (stmtRule read) (stmtRule read') := by
  refine .bind together_current fun l l' hl => ?_
  cases hl with
  | text hs => exact hread .exprStmt
  | same l =>
    split
    · exact hread .decl
    · exact hread .decl
    · exact hread .decl
    · exact hread .decl
    · exact hread .letStmt
    · exact .bind (hread .conditional) fun _ _ hchoice => .pure (by simp_all)
    · exact hread .whileStmt
    · exact hread .returnStmt
    · exact .bind together_here fun pos pos' hpos =>
        .bind (hread .block) fun body body' hbody => .pure (by simp_all)
    · exact hread .exprStmt

theorem together_letRule :
    P.Together (P.Alike Relabelling.stmt) (letRule read) (letRule read') := by
  refine .bind together_here fun pos pos' hpos => .bind_eq (together_keyword _) fun _ =>
    .bind_eq (together_skipKeyword _) fun _ => .bind_eq together_ident fun name =>
    .bind_eq (together_skipSymbol _) fun hasType => ?_
  have hrest : ∀ type, P.Together (P.Alike Relabelling.stmt)
      (do symbol .assign; let value ← read (.expr true); symbol .semicolon
          pure (Stmt.letIn pos name type value))
      (do symbol .assign; let value ← read' (.expr true); symbol .semicolon
          pure (Stmt.letIn pos' name type value)) :=
    fun type => .bind_eq (together_symbol _) fun _ => .bind (hread (.expr true)) fun _ _ _ =>
      .bind_eq (together_symbol _) fun _ => .pure (by simp_all)
  split
  · exact .bind_eq (hread.type.map fun _ _ h => congrArg some h) hrest
  · exact .bind_eq (.pure rfl) hrest

/-- A second body is the same up to places and contents, or missing. -/
theorem together_elseBranch :
    P.Together (P.Alike fun ρ owner => Option.map (List.map (ρ.stmt owner))) (elseBranch read)
      (elseBranch read') := by
  refine .bind_eq (together_skipKeyword _) fun hasElse => ?_
  split
  · refine .bind_eq (together_seesKeyword _) fun chained => ?_
    split
    · exact .bind (hread .conditional) fun _ _ hchoice => .pure (by simp_all)
    · exact .bind (hread .block) fun _ _ hbody => .pure (by simp_all)
  · exact .pure fun _ => rfl

theorem together_conditionalRule :
    P.Together (P.Alike Relabelling.choice) (conditionalRule read) (conditionalRule read') :=
  .bind together_here fun _ _ _ => .bind_eq (together_keyword _) fun _ =>
    .bind (hread (.expr false)) fun _ _ _ => .bind (hread .block) fun _ _ _ =>
    .bind (together_elseBranch hread) fun _ _ _ => .pure (by simp_all)

theorem together_whileRule :
    P.Together (P.Alike Relabelling.stmt) (whileRule read) (whileRule read') :=
  .bind together_here fun _ _ _ => .bind_eq (together_keyword _) fun _ =>
    .bind (hread (.expr false)) fun _ _ _ => .bind (hread .block) fun _ _ _ =>
    .pure (by simp_all)

theorem together_returnRule :
    P.Together (P.Alike Relabelling.stmt) (returnRule read) (returnRule read') := by
  refine .bind together_here fun pos pos' hpos => .bind_eq (together_keyword _) fun _ =>
    .bind_eq (together_seesSymbol _) fun semicolon =>
    .bind_eq (together_seesSymbol _) fun brace => ?_
  have hrest : ∀ value value', P.Alike (fun ρ owner => Option.map (ρ.expr owner)) value value' →
      P.Together (P.Alike Relabelling.stmt) (do let _ ← endStmt; pure (Stmt.ret pos value))
        (do let _ ← endStmt; pure (Stmt.ret pos' value')) :=
    fun value value' _ => .bind_eq together_endStmt fun _ => .pure (by simp_all)
  dsimp only
  split
  · exact hrest none none fun _ => rfl
  · have hvalue : P.Together (P.Alike fun ρ owner => Option.map (ρ.expr owner))
        (some <$> read (.expr true)) (some <$> read' (.expr true)) :=
      (hread (.expr true)).map fun _ _ h owner => congrArg some (h owner)
    exact .bind hvalue hrest

theorem together_exprStmtRule :
    P.Together (P.Alike Relabelling.stmt) (exprStmtRule read) (exprStmtRule read') := by
  refine .bind together_here fun pos pos' hpos => .bind (hread (.expr true)) fun e e' he =>
    .bind_eq (together_seesSymbol _) fun assigned => ?_
  have hplace : ∀ owner, (place? e').map (P.labels'.target owner) =
      (place? e).map (P.labels.target owner) := by
    intro owner
    rw [← P.labels'.place?_expr, ← P.labels.place?_expr]
    exact congrArg place? (he owner)
  have hblame : P.place' e'.pos = P.place e.pos :=
    calc P.place' e'.pos
      _ = (P.labels'.expr none e').pos := (P.labels'.pos_expr none e').symm
      _ = (P.labels.expr none e).pos := congrArg Expr.pos (he none)
      _ = P.place e.pos := P.labels.pos_expr none e
  split
  · cases hp : place? e with
    | none =>
      cases hp' : place? e' with
      | none => exact ⟨fun _ _ _ => .error (.same _ _ hblame)⟩
      | some target' => simp [hp, hp'] at hplace
    | some target =>
      cases hp' : place? e' with
      | none => simp [hp, hp'] at hplace
      | some target' =>
        simp only [hp, hp', Option.map_some, Option.some.injEq] at hplace
        exact .bind_eq together_advance fun _ => .bind (hread (.expr true)) fun _ _ _ =>
          .bind_eq together_endStmt fun _ => .pure (by simp_all)
  · exact .bind_eq together_endStmt fun _ => .pure (by simp_all)

end Statements

section Declarations

/-- Behind an ampersand, look-ahead decides alike whether a receiver follows. -/
theorem At.receiver (h : P.At c c') :
    (decide (c'.lexeme? 0 = some (.symbol .amp)) && c'.spells 1 "self") =
        (decide (c.lexeme? 0 = some (.symbol .amp)) && c.spells 1 "self") ∧
      (decide (c'.lexeme? 0 = some (.symbol .amp)) && c'.spells 1 "mut" && c'.spells 2 "self") =
        (decide (c.lexeme? 0 = some (.symbol .amp)) && c.spells 1 "mut" && c.spells 2 "self") := by
  have hiff : c'.lexeme? 0 = some (.symbol .amp) ↔ c.lexeme? 0 = some (.symbol .amp) :=
    (h.lexeme 0).eq_some_iff (by simp)
  by_cases hc : c.lexeme? 0 = some (.symbol .amp)
  · have ha := h.ahead
    simp only [Cursor.ahead, hc, hiff.2 hc, List.cons.injEq, and_true] at ha
    simp only [hc, hiff.2 hc, decide_true, Bool.true_and]
    exact ha
  · simp [hc, hiff]

theorem together_receiverRule : P.Together Eq receiverRule receiverRule := by
  refine .bind_eq (together_skipKeyword _) fun isSelf => ?_
  split
  · exact .pure rfl
  · refine ⟨fun c c' h => ?_⟩
    obtain ⟨hshared, hexclusive⟩ := h.receiver
    change P.Matches _
      ((if (decide (c.lexeme? 0 = some (.symbol .amp)) && c.spells 1 "self") = true then _
        else _ : Parse (Option Receiver)) c)
      ((if (decide (c'.lexeme? 0 = some (.symbol .amp)) && c'.spells 1 "self") = true then _
        else _ : Parse (Option Receiver)) c')
    rw [hshared]
    split
    · exact .ok rfl h.advance.advance
    · change P.Matches _
        ((if (decide (c.lexeme? 0 = some (.symbol .amp)) && c.spells 1 "mut" &&
          c.spells 2 "self") = true then _ else _ : Parse (Option Receiver)) c)
        ((if (decide (c'.lexeme? 0 = some (.symbol .amp)) && c'.spells 1 "mut" &&
          c'.spells 2 "self") = true then _ else _ : Parse (Option Receiver)) c')
      rw [hexclusive]
      split
      · exact .ok rfl h.advance.advance.advance
      · exact .ok rfl h

include hread

theorem together_declRule :
    P.Together (P.Alike Relabelling.stmt) (declRule read) (declRule read') := by
  refine .bind_eq (together_skipKeyword _) fun _ => .bind together_current fun l l' hl => ?_
  cases hl with
  | text hs => exact together_unexpected _
  | same l =>
    split
    · exact (hread .structDecl).map fun _ _ h owner => congrArg Stmt.structDecl (h owner)
    · exact (hread .implBlock).map fun _ _ h owner => congrArg Stmt.implBlock (h owner)
    · exact (hread .fnDecl).map fun _ _ h _ => congrArg Stmt.fnDecl (h none)
    · exact together_unexpected _

theorem together_fieldDecl :
    P.Together (P.Alike fun ρ _ => ρ.fieldDecl) (fieldDecl read) (fieldDecl read') :=
  .bind_eq (together_skipKeyword _) fun _ => .bind together_here fun _ _ _ =>
    .bind_eq together_ident fun _ => .bind_eq (together_symbol _) fun _ =>
    .bind_eq hread.type fun _ => .pure (by simp_all)

theorem together_structDeclRule :
    P.Together (P.Alike fun ρ _ => ρ.structDecl) (structDeclRule read) (structDeclRule read') := by
  refine .bind together_here fun pos pos' hpos => .bind_eq (together_keyword _) fun _ =>
    .bind_eq together_ident fun name => .bind_eq (together_skipSymbol _) fun bare => ?_
  split
  · exact .pure (by simp_all)
  · refine .bind_eq (together_symbol _) fun _ =>
      .bind (together_listUntil _ (together_fieldDecl hread)) fun fields fields' hfields =>
      .bind_eq (together_symbol _) fun _ => .pure ?_
    have hmap := Alike.map hfields
    simp_all

theorem together_implBlockRule :
    P.Together (P.Alike fun ρ _ => ρ.implBlock) (implBlockRule read) (implBlockRule read') := by
  have hround : P.Together (SameRound (P.Alike Relabelling.fnDecl))
      (do if ← seesSymbol .closeBrace then pure .stop
          else
            let _ ← skip (.keyword .pubKw)
            let decl ← read .fnDecl
            pure (.item decl))
      (do if ← seesSymbol .closeBrace then pure .stop
          else
            let _ ← skip (.keyword .pubKw)
            let decl ← read' .fnDecl
            pure (.item decl)) := by
    refine .bind_eq (together_seesSymbol _) fun closed => ?_
    split
    · exact .pure .stop
    · exact .bind_eq (together_skipKeyword _) fun _ =>
        .bind (hread .fnDecl) fun _ _ hd => .pure (.item hd)
  refine .bind together_here fun pos pos' hpos => .bind_eq (together_keyword _) fun _ =>
    .bind_eq together_ident fun type => .bind_eq (together_symbol _) fun _ =>
    .bind (together_many hround) fun methods methods' hmethods =>
    .bind_eq (together_symbol _) fun _ => .pure ?_
  have hmap := Alike.map hmethods
  simp_all

theorem together_paramRule :
    P.Together (P.Alike fun ρ _ => ρ.param) (paramRule read) (paramRule read') :=
  .bind together_here fun _ _ _ => .bind_eq (together_skipKeyword _) fun _ =>
    .bind_eq together_ident fun _ => .bind_eq (together_symbol _) fun _ =>
    .bind_eq hread.type fun _ => .pure (by simp_all)

theorem together_fnDeclRule :
    P.Together (P.Alike Relabelling.fnDecl) (fnDeclRule read) (fnDeclRule read') := by
  refine .bind together_here fun pos pos' hpos => .bind_eq (together_keyword _) fun _ =>
    .bind_eq together_ident fun name => .bind_eq (together_symbol _) fun _ =>
    .bind_eq hread.receiver fun receiver => .bind_eq (together_seesSymbol _) fun closed => ?_
  have hrest : P.Together (P.Alike Relabelling.fnDecl)
      (do let params ← listUntil .closeParen (read .param)
          symbol .closeParen
          let hasRet ← skip (.symbol .arrow)
          let ret ← if hasRet then read .type else pure .unit
          let body ← read .block
          pure (FnDecl.mk pos name receiver params ret body))
      (do let params ← listUntil .closeParen (read' .param)
          symbol .closeParen
          let hasRet ← skip (.symbol .arrow)
          let ret ← if hasRet then read' .type else pure .unit
          let body ← read' .block
          pure (FnDecl.mk pos' name receiver params ret body)) := by
    refine .bind (together_listUntil _ (hread .param)) fun params params' hparams =>
      .bind_eq (together_symbol _) fun _ => .bind_eq (together_skipSymbol _) fun hasRet => ?_
    have hmap := Alike.map hparams
    have hbody : ∀ ret, P.Together (P.Alike Relabelling.fnDecl)
        (do let body ← read .block; pure (FnDecl.mk pos name receiver params ret body))
        (do let body ← read' .block; pure (FnDecl.mk pos' name receiver params' ret body)) :=
      fun _ => .bind (hread .block) fun _ _ _ => .pure (by simp_all)
    split
    · exact .bind_eq hread.type hbody
    · exact hbody .unit
  split
  · exact .bind_eq (together_symbol _) fun _ => hrest
  · exact hrest

end Declarations

include hread in
/-- One step: the rule of a construct, given that its parts are read abreast. -/
theorem together_rule : P.KeepsAbreast (Goal.rule read) (Goal.rule read') := by
  intro α goal
  cases goal with
  | program => exact together_programRule hread
  | stmt => exact together_stmtRule hread
  | block => exact together_blockRule hread
  | decl => exact together_declRule hread
  | structDecl => exact together_structDeclRule hread
  | implBlock => exact together_implBlockRule hread
  | fnDecl => exact together_fnDeclRule hread
  | receiver => exact together_receiverRule.mono fun _ _ h _ => h.symm
  | param => exact together_paramRule hread
  | type => exact (together_typeRule hread).mono fun _ _ h _ => h.symm
  | letStmt => exact together_letRule hread
  | conditional => exact together_conditionalRule hread
  | whileStmt => exact together_whileRule hread
  | returnStmt => exact together_returnRule hread
  | exprStmt => exact together_exprStmtRule hread
  | expr literals => exact hread (.disjunction literals)
  | disjunction literals =>
    exact together_leftJoined (hread (.conjunction literals)) joins_disjunction
  | conjunction literals =>
    exact together_leftJoined (hread (.comparison literals)) joins_conjunction
  | comparison literals => exact together_comparisonRule hread literals
  | sum literals => exact together_leftJoined (hread (.product literals)) joins_sum
  | product literals => exact together_leftJoined (hread (.unary literals)) joins_product
  | unary literals => exact together_unaryRule hread literals
  | postfixed literals => exact together_postfixedRule hread literals
  | primary literals => exact together_primaryRule hread literals
  | args => exact together_argsRule hread
  | structLit type => exact together_structLitRule hread type

/-- Two scripts that are parallel are read abreast, however deep the first is read. -/
theorem together_parse (P : Parallel) (depth : Nat) :
    P.KeepsAbreast (parse depth) (parse (depth + P.room)) := by
  induction depth with
  | zero =>
    refine fun goal => ⟨fun c c' h => ?_⟩
    -- Without more room both give up at the same token.
    rcases Nat.eq_zero_or_pos P.room with hroom | hroom
    · rw [hroom]
      exact .error (h.unexpected _)
    · exact .deep hroom rfl
  | succ depth ih =>
    rw [Nat.succ_add]
    exact together_rule ih

end Parallel

theorem Relabelling.result_id (owner : Option String) {α : Type} (goal : Grammar.Goal α) (a : α) :
    (Relabelling.placing id).result owner goal a = a := by
  cases goal with
  | program | block => exact (body_eq_map _ owner a).symm.trans (stmts_id owner a)
  | args => exact (exprs_eq_map _ owner a).symm.trans (exprs_id owner a)
  | stmt | decl | letStmt | whileStmt | returnStmt | exprStmt => exact stmt_id owner a
  | structDecl => exact structDecl_id a
  | implBlock => exact implBlock_id a
  | fnDecl => exact fnDecl_id owner a
  | conditional => exact choice_id owner a
  | receiver | param | type => rfl
  | _ => exact expr_id owner a

/-- All tokens ahead and the end of the script stand at places that a change of places leaves alone.
-/
structure Cursor.Fixed (f : Pos → Pos) (c : Cursor) : Prop where
  tokens : ∀ t ∈ c.rest, f t.pos = t.pos
  stop : f c.stop = c.stop

/-- A script beside itself. -/
def Parallel.twice {f : Pos → Pos} {c : Cursor} (h : c.Fixed f) (room : Nat) : Parallel where
  place := f
  place' := id
  content := id
  left := c
  right := c
  room := room
  tokens := by
    refine List.map_congr_left fun t ht => ?_
    simp only [Relabelling.token, Relabelling.marking_place, id_eq, h.tokens t ht]
    rfl
  stop := h.stop.symm
  ahead _ := rfl

theorem Parallel.SameError.of_twice {f : Pos → Pos} {c : Cursor} {h : c.Fixed f} {room : Nat}
    {e e' : ParseError} (he : (twice h room).SameError e e') :
    e' = .unexpected e.expected e.found (f e.pos) := by
  cases he with
  | same expected found hp => exact congrArg (ParseError.unexpected expected found) hp
  | text expected _ _ hs hp => exact congrArg₂ (ParseError.unexpected expected) hs hp

namespace Grammar

variable {α : Type}

/-- What can be read at some depth is read alike at every greater depth. -/
theorem parse_deeper {depth depth' : Nat} (h : depth ≤ depth') (goal : Goal α) (c : Cursor) :
    (∃ e, parse depth goal c = .error e ∧ e.TooDeep) ∨
      parse depth' goal c = parse depth goal c := by
  have hfixed : c.Fixed id := ⟨fun _ _ => rfl, rfl⟩
  obtain ⟨room, rfl⟩ := Nat.exists_eq_add_of_le h
  have htwice : Parallel.Matches _ _ (parse depth goal c) (parse (depth + room) goal c) :=
    ((Parallel.twice hfixed room).together_parse depth goal).run c c (.mk 0)
  generalize parse depth goal c = r at htwice
  generalize parse (depth + room) goal c = r' at htwice
  cases htwice with
  | @ok a a' _ _ ha hd =>
    obtain ⟨k⟩ := hd
    have hresult : (Relabelling.placing id).result none goal a' =
        (Relabelling.placing id).result none goal a := ha none
    rw [Relabelling.result_id, Relabelling.result_id] at hresult
    rw [hresult]
    exact .inr rfl
  | error he => exact .inr (congrArg Except.error he.of_twice)
  | deep _ he => exact .inl ⟨_, rfl, he⟩

/-- A change of places that leaves the tokens alone leaves alone what is read from them, and the
place of an error. -/
theorem parse_fixed {f : Pos → Pos} {c : Cursor} (h : c.Fixed f) (depth : Nat) (goal : Goal α) :
    match parse depth goal c with
    | .ok (a, _) => ∀ owner, (Relabelling.placing f).result owner goal a = a
    | .error e => f e.pos = e.pos := by
  have htwice : Parallel.Matches _ _ (parse depth goal c) (parse depth goal c) :=
    ((Parallel.twice h 0).together_parse depth goal).run c c (.mk 0)
  cases hr : parse depth goal c with
  | ok r =>
    rw [hr] at htwice
    cases htwice with
    | ok ha _ => exact fun owner => (ha owner).symm.trans (Relabelling.result_id owner goal _)
  | error e =>
    rw [hr] at htwice
    cases htwice with
    | error he => exact congrArg ParseError.pos he.of_twice.symm
    | deep hroom _ => exact absurd hroom (Nat.lt_irrefl 0)

end Grammar

end Rustlet
