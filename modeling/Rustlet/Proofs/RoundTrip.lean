import Rustlet.Proofs.Parallel.Rules
import Rustlet.Proofs.Proper.Rules
import Rustlet.Proofs.Reading.Statements

/-! Reading back what is written. -/
namespace Rustlet

open Filter Grammar Parse Relabelling

section Leading

variable (spell : Pos → Number → String)

theorem enclosed_starts {e : Expr} {bare : Bool → Bool → List Lexeme} {literals : Bool}
    (h : e.isConditional = false →
      ∃ l tail, bare literals true = l :: tail ∧ l ≠ .keyword .ifKw) (least : Level) :
    ∃ l tail, e.enclosed bare least literals true = l :: tail ∧ l ≠ .keyword .ifKw := by
  unfold Expr.enclosed
  split
  · exact ⟨_, _, rfl, by simp⟩
  · rename_i hbare
    simp only [Expr.needsParens, Bool.true_and, Bool.or_eq_true, not_or, Bool.not_eq_true] at hbare
    exact h hbare.2

theorem starts_append {ls : List Lexeme}
    (h : ∃ l tail, ls = l :: tail ∧ l ≠ .keyword .ifKw) (ms : List Lexeme) :
    ∃ l tail, ls ++ ms = l :: tail ∧ l ≠ .keyword .ifKw := by
  obtain ⟨l, tail, rfl, hl⟩ := h
  exact ⟨l, _, rfl, hl⟩

/-- A statement that starts with an expression does not start like a choice. -/
theorem lexemes_starts : ∀ (e : Expr) (literals : Bool), e.isConditional = false →
    ∃ l tail, e.lexemes spell literals true = l :: tail ∧ l ≠ .keyword .ifKw
  | .number .., _, _ | .text .., _, _ => ⟨_, _, rfl, by simp⟩
  | .bool _ b, _, _ => by cases b <;> exact ⟨_, _, rfl, by simp⟩
  | .name _ name, _, _ => by
    refine ⟨nameLexeme name, [], rfl, ?_⟩
    unfold nameLexeme
    split <;> simp
  | .unary .., _, _ => ⟨_, _, rfl, by simp⟩
  | .binary op left right, literals, _ =>
    starts_append (enclosed_starts (lexemes_starts left literals) _) _
  | .logic op left right, literals, _ =>
    starts_append (enclosed_starts (lexemes_starts left literals) _) _
  | .field _ object name, literals, _ =>
    starts_append (enclosed_starts (lexemes_starts object literals) _) _
  | .call _ callee args, literals, _ =>
    starts_append (enclosed_starts (lexemes_starts callee literals) _) _
  | .pathCall _ type _ _, _, _ => by cases type <;> exact ⟨_, _, rfl, by simp [TypePath.lexeme]⟩
  | .methodCall _ receiver _ _, literals, _ =>
    starts_append (enclosed_starts (lexemes_starts receiver literals) _) _
  | .macroCall .., _, _ => ⟨_, _, rfl, by simp⟩
  | .structLit _ type _, _, _ => by cases type <;> exact ⟨_, _, rfl, by simp [TypePath.lexeme]⟩
  | .conditional _, _, h => by cases h

end Leading

/-- A spelling of numbers that gives the value of every numeral a numeral with that value. -/
def SpellsNumerals (spell : Pos → Number → String) : Prop :=
  ∀ pos numeral, Number.ofNumeral (spell pos (.ofNumeral numeral)) = .ofNumeral numeral

section Written

variable {spell : Pos → Number → String} {word : String → Prop}

theorem initsLexemes_names : ∀ (fields : List FieldInit), ∀ ls ∈ initsLexemes spell fields,
    ∃ name tail, ls = .ident name :: tail
  | [], _, h => by simp [initsLexemes] at h
  | ⟨_, name, value⟩ :: rest, ls, h => by
    simp only [initsLexemes, FieldInit.lexemes, List.mem_cons] at h
    rcases h with rfl | h
    · exact ⟨name, _, rfl⟩
    · exact initsLexemes_names rest ls h

theorem target_starts (t : Place) :
    ∃ l tail, t.lexemes spell = l :: tail ∧ l ≠ .keyword .ifKw := by
  cases t with
  | name pos name =>
    simp only [Place.lexemes]
    exact lexemes_starts spell (.name pos name) true rfl
  | field pos object name =>
    simp only [Place.lexemes]
    exact lexemes_starts spell (.field pos object name) true rfl

mutual

theorem opens_expr (hspell : SpellsNumerals spell) (owner : Option String) : ∀ (e : Expr),
    e.Proper word → ∀ literals leading : Bool, literals = true ∨ e.isStructLit = false →
      Opens literals (!e.isField) e.level (e.lexemes spell literals leading) (unplaced.expr owner e)
  | .number pos n, h, literals, leading, _ => by
    obtain ⟨numeral, rfl⟩ : ∃ numeral, n = .ofNumeral numeral := h
    have hread : Reads (.primary literals) (Ends .primary literals) _ _ :=
      reads_number (spell pos (.ofNumeral numeral))
    rw [hspell] at hread
    simp only [Expr.lexemes]
    exact Reads.opens_of_not_loops rfl hread
  | .text _ content, _, literals, leading, _ => by
    simp only [Expr.lexemes]
    exact Reads.opens_of_not_loops rfl (reads_text content)
  | .bool _ b, _, literals, leading, _ => by
    have hread : Reads (.primary literals) (Ends .primary literals) _ _ := reads_bool b
    cases b <;> exact Reads.opens_of_not_loops rfl hread
  | .name _ name, _, literals, leading, _ => by
    simp only [Expr.lexemes]
    exact Reads.opens_of_not_loops rfl (reads_name name)
  | .unary _ op operand, h, literals, leading, _ => by
    have hoperand := opens_enclosed (opens_expr hspell owner operand h) .unary literals false
    simp only [Expr.lexemes]
    exact Reads.opens_of_not_loops rfl (reads_unaryOp op hoperand.reads)
  | .binary op left right, h, literals, leading, _ => by
    have hleft := opens_enclosed (opens_expr hspell owner left h.1) op.level.left literals leading
    have hright := opens_enclosed (opens_expr hspell owner right h.2) op.level.next literals false
    simp only [Expr.lexemes]
    exact opens_binary op hleft hright.reads
  | .logic op left right, h, literals, leading, _ => by
    have hleft := opens_enclosed (opens_expr hspell owner left h.1) op.level.left literals leading
    have hright := opens_enclosed (opens_expr hspell owner right h.2) op.level.next literals false
    simp only [Expr.lexemes]
    exact opens_logic op hleft hright.reads
  | .field _ object name, h, literals, leading, _ => by
    have hobject := opens_enclosed (opens_expr hspell owner object h.1) .postfixed literals leading
    simp only [Expr.lexemes]
    exact opens_field name hobject
  | .call _ callee args, h, literals, leading, _ => by
    have hcallee := opens_callee (opens_expr hspell owner callee h.1) literals leading
    have hargs := reads_args (readsItem_exprs hspell owner args h.2)
    simp only [Expr.lexemes]
    exact opens_call hcallee hargs
  | .pathCall _ type name args, h, literals, leading, _ => by
    have hargs := reads_args (readsItem_exprs hspell owner args h.2.2)
    simp only [Expr.lexemes]
    exact Reads.opens_of_not_loops rfl (reads_pathCall type name hargs)
  | .methodCall _ receiver method args, h, literals, leading, _ => by
    have hreceiver :=
      opens_enclosed (opens_expr hspell owner receiver h.1) .postfixed literals leading
    have hargs := reads_args (readsItem_exprs hspell owner args h.2.2)
    simp only [Expr.lexemes]
    exact opens_methodCall method hreceiver hargs
  | .macroCall _ name args, h, literals, leading, _ => by
    have hargs := reads_args (readsItem_exprs hspell owner args h.2)
    simp only [Expr.lexemes]
    exact Reads.opens_of_not_loops rfl (reads_macroCall name hargs)
  | .structLit _ type fields, h, literals, leading, hliteral => by
    obtain rfl : literals = true := by simpa [Expr.isStructLit] using hliteral
    have hfields := readsItem_inits hspell owner fields h.2
    simp only [Expr.lexemes]
    exact Reads.opens_of_not_loops rfl (reads_structLit type (initsLexemes_names fields) hfields)
  | .conditional c, h, literals, leading, _ => by
    obtain ⟨ls, hls, hread⟩ := reads_lexemes_choice hspell owner c h
    simp only [Expr.lexemes, hls]
    exact Reads.opens_of_not_loops rfl (reads_choice hread)

theorem readsItem_exprs (hspell : SpellsNumerals spell) (owner : Option String) :
    ∀ (es : List Expr), exprsProper word es →
      ∀ᶠ depth in atTop, List.Forall₂ (ReadsItem .closeParen (parse depth (.expr true)))
        (exprsLexemes spell es) (unplaced.exprs owner es)
  | [], _ => .of_forall fun _ => .nil
  | e :: rest, h => by
    filter_upwards [readsItem_expr (opens_expr hspell owner e h.1 true false (.inl rfl)),
      readsItem_exprs hspell owner rest h.2] with depth he hrest
    exact .cons he hrest

theorem readsItem_inits (hspell : SpellsNumerals spell) (owner : Option String) :
    ∀ (fs : List FieldInit), initsProper word fs →
      ∀ᶠ depth in atTop, List.Forall₂ (ReadsItem .closeBrace (fieldInit (parse depth)))
        (initsLexemes spell fs) (unplaced.inits owner fs)
  | [], _ => .of_forall fun _ => .nil
  | ⟨_, name, value⟩ :: rest, h => by
    filter_upwards [readsItem_init name (opens_expr hspell owner value h.1.2 true false (.inl rfl)),
      readsItem_inits hspell owner rest h.2] with depth hvalue hrest
    exact .cons hvalue hrest

theorem reads_lexemes_choice (hspell : SpellsNumerals spell) (owner : Option String) :
    ∀ (c : Conditional), c.Proper word → ∃ ls, c.lexemes spell = .keyword .ifKw :: ls ∧
      Reads .conditional EndsChoice (.keyword .ifKw :: ls) (unplaced.choice owner c)
  | ⟨_, condition, thenBody, elseBody⟩, h => by
    have hcondition :=
      opens_enclosed (opens_expr hspell owner condition h.1) .disjunction false false
    have hthen := reads_stmts hspell owner thenBody h.2.1
    refine ⟨_, by rw [Conditional.lexemes], ?_⟩
    exact reads_conditional hcondition hthen (reads_else hspell owner elseBody h.2.2)

theorem reads_else (hspell : SpellsNumerals spell) (owner : Option String) :
    ∀ (elseBody : Option (List Stmt)), bodyProper? word elseBody →
      ∀ᶠ depth in atTop, ∀ rest, EndsChoice rest →
        elseBranch (parse depth) (.flat (elseLexemes spell elseBody ++ rest)) =
          .ok (unplaced.body? owner elseBody, .flat rest)
  | none, _ => elseBranch_none
  | some body, h => by
    simp only [elseLexemes, Relabelling.body?]
    split
    · rename_i hchoice
      obtain ⟨c, ls, hc, hls, hread⟩ := reads_soleChoice hspell owner body h hchoice
      rw [hc, hls]
      exact elseBranch_choice hread
    · exact elseBranch_body (reads_stmts hspell owner body h)

theorem reads_soleChoice (hspell : SpellsNumerals spell) (owner : Option String) :
    ∀ (body : List Stmt), bodyProper word body → isSoleChoice body = true →
      ∃ c ls, unplaced.body owner body = [.conditional c] ∧
        bodyLexemes spell body = .keyword .ifKw :: ls ∧
        Reads .conditional EndsChoice (.keyword .ifKw :: ls) c
  | [.conditional c], h, _ => by
    obtain ⟨ls, hls, hread⟩ := reads_lexemes_choice hspell owner c h.1
    exact ⟨_, ls, rfl, by simp [bodyLexemes, Stmt.lexemes, hls], hread⟩
  | [], _, h | _ :: _ :: _, _, h => by simp [isSoleChoice] at h
  | [.letIn ..], _, h | [.assign ..], _, h | [.expr ..], _, h | [.whileLoop ..], _, h
  | [.block ..], _, h | [.ret ..], _, h | [.structDecl ..], _, h | [.implBlock ..], _, h
  | [.fnDecl ..], _, h => by cases h

theorem opens_target (hspell : SpellsNumerals spell) (owner : Option String) : ∀ (t : Place),
    t.Proper word → ∃ e callable level, place? e = some (unplaced.target owner t) ∧
      Opens true callable level (t.lexemes spell) e
  | .name _ name, _ => by
    refine ⟨.name .start name, true, .primary, rfl, ?_⟩
    simp only [Place.lexemes]
    exact Reads.opens_of_not_loops rfl (reads_name name)
  | .field _ object name, h => by
    have hobject := opens_enclosed (opens_expr hspell owner object h.1) .postfixed true true
    refine ⟨.field .start (unplaced.expr owner object) name, false, .postfixed, rfl, ?_⟩
    simp only [Place.lexemes]
    exact opens_field name hobject

theorem reads_lexemes_fnDecl (hspell : SpellsNumerals spell) (owner : Option String) :
    ∀ (d : FnDecl), d.Proper word → ∃ ls, d.lexemes spell = .keyword .fnKw :: ls ∧
      Reads .fnDecl (fun _ => True) (.keyword .fnKw :: ls) (unplaced.fnDecl owner d)
  | ⟨_, name, receiver, params, ret, body⟩, h => by
    refine ⟨_, by rw [FnDecl.lexemes], ?_⟩
    rw [unplaced, placing, fnDecl_marking]
    exact reads_fnDecl name receiver params ret (reads_stmts hspell owner body h.2.2.2)

theorem readsFns (hspell : SpellsNumerals spell) (owner : Option String) :
    ∀ (ds : List FnDecl), fnDeclsProper word ds →
      ReadsFns (fnDeclsLexemes spell ds) (unplaced.fnDecls owner ds)
  | [], _ => .nil
  | d :: rest, h => by
    obtain ⟨ls, hls, hread⟩ := reads_lexemes_fnDecl hspell owner d h.1
    simp only [fnDeclsLexemes, hls]
    exact ReadsFns.cons hread (readsFns hspell owner rest h.2)

theorem reads_lexemes_implBlock (hspell : SpellsNumerals spell) : ∀ (b : ImplBlock),
    b.Proper word → ∃ ls, b.lexemes spell = .keyword .implKw :: ls ∧
      Reads .implBlock (fun _ => True) (.keyword .implKw :: ls) (unplaced.implBlock b)
  | ⟨_, type, methods⟩, h => by
    refine ⟨_, by rw [ImplBlock.lexemes], ?_⟩
    exact reads_implBlock type (readsFns hspell (some type) methods h.2)

theorem reads_stmts (hspell : SpellsNumerals spell) (owner : Option String) :
    ∀ (body : List Stmt), bodyProper word body →
      ReadsStmts (bodyLexemes spell body) (unplaced.body owner body)
  | [], _ => .nil
  | s :: rest, h => by
    refine ReadsStmts.cons (reads_stmt hspell owner s h.1) (reads_stmts hspell owner rest h.2.2) ?_
    intro hopen
    have hs : s.isOpen = true := by
      cases s <;> exact hopen
    rw [h.2.1 hs, bodyLexemes]

theorem reads_stmt (hspell : SpellsNumerals spell) (owner : Option String) : ∀ (s : Stmt),
    s.Proper word →
      Reads .stmt (EndsStmt (unplaced.stmt owner s)) (s.lexemes spell) (unplaced.stmt owner s)
  | .letIn _ name type value, h => by
    have hvalue := opens_expr hspell owner value h.2.2 true false (.inl rfl)
    simp only [Stmt.lexemes]
    exact (reads_let name type hvalue).mono fun _ _ => trivial
  | .assign _ target value, h => by
    obtain ⟨e, callable, level, hplace, htarget⟩ := opens_target hspell owner target h.1
    have hvalue := opens_expr hspell owner value h.2 true false (.inl rfl)
    simp only [Stmt.lexemes]
    exact (reads_assign htarget hplace hvalue (target_starts target)).mono fun _ _ => trivial
  | .expr _ value terminated, h => by
    have hvalue := opens_enclosed (opens_expr hspell owner value h) .disjunction true true
    have hstarts := enclosed_starts (lexemes_starts spell value true) .disjunction
    simp only [Stmt.lexemes]
    exact reads_expr_stmt terminated hvalue hstarts
  | .conditional c, h => by
    obtain ⟨ls, hls, hread⟩ := reads_lexemes_choice hspell owner c h
    simp only [Stmt.lexemes, hls]
    exact (reads_choice_stmt hread).mono fun _ hrest => hrest.1
  | .whileLoop _ condition body, h => by
    have hcondition :=
      opens_enclosed (opens_expr hspell owner condition h.1) .disjunction false false
    simp only [Stmt.lexemes]
    exact (reads_while hcondition (reads_stmts hspell owner body h.2)).mono fun _ _ => trivial
  | .block _ body, h => by
    simp only [Stmt.lexemes]
    exact (reads_block_stmt (reads_stmts hspell owner body h)).mono fun _ _ => trivial
  | .ret _ none, _ => by
    simp only [Stmt.lexemes]
    exact reads_return_none.mono fun _ _ => trivial
  | .ret _ (some value), h => by
    have hvalue := opens_expr hspell owner value h true false (.inl rfl)
    simp only [Stmt.lexemes]
    exact (reads_return_some hvalue).mono fun _ _ => trivial
  | .structDecl d, _ => by
    have hread := Reads.declaration (reads_structDecl d) (fun _ _ => rfl) fun _ _ => rfl
    simp only [Stmt.lexemes]
    exact hread.mono fun _ _ => trivial
  | .implBlock b, h => by
    obtain ⟨ls, hls, hread⟩ := reads_lexemes_implBlock hspell b h
    have hread := Reads.declaration hread (fun _ _ => rfl) fun _ _ => rfl
    simp only [Stmt.lexemes, hls]
    exact hread.mono fun _ _ => trivial
  | .fnDecl d, h => by
    obtain ⟨ls, hls, hread⟩ := reads_lexemes_fnDecl hspell none d h
    have hread := Reads.declaration hread (fun _ _ => rfl) fun _ _ => rfl
    simp only [Stmt.lexemes, hls]
    exact hread.mono fun _ _ => trivial

end

end Written

section Places

theorem Cursor.ahead_eq {c c' : Cursor} (h : ∀ k, c'.lexeme? k = c.lexeme? k) :
    c'.ahead = c.ahead := by
  simp only [Cursor.ahead, Cursor.opensFields, Cursor.spells, h]

/-- The tokens of a script beside its lexemes in one place. -/
def parallelPlaces (tokens : List Token) (stop : Pos) : Parallel where
  place := fun _ => .start
  place' := id
  content := id
  left := ⟨tokens, stop⟩
  right := .flat (tokens.map (·.lexeme))
  room := 0
  tokens := by simp [Cursor.flat, Function.comp_def]
  stop := rfl
  ahead k := Cursor.ahead_eq fun i => by
    simp [Cursor.skip, Cursor.flat, Cursor.lexeme?, Function.comp_def]

/-- What is read from lexemes alone is read from the tokens of a script, up to places. -/
theorem parse_placed {α : Type} {goal : Goal α} {depth : Nat} {tokens : List Token} {a : α}
    (h : parse depth goal (.flat (tokens.map (·.lexeme))) = .ok (a, .flat [])) (stop : Pos) :
    ∃ a', parse depth goal ⟨tokens, stop⟩ = .ok (a', ⟨[], stop⟩) ∧
      ∀ owner, unplaced.result owner goal a' = a := by
  have htogether : Parallel.Matches _ _ (parse depth goal ⟨tokens, stop⟩)
      (parse depth goal (.flat (tokens.map (·.lexeme)))) :=
    (Parallel.together_parse (parallelPlaces tokens stop) depth goal).run _ _ (.mk 0)
  rw [h] at htogether
  generalize parse depth goal ⟨tokens, stop⟩ = left at htogether
  cases htogether with
  | @ok a' _ c' _ ha hat =>
    obtain ⟨rest, stop'⟩ := c'
    obtain rfl : rest = [] := List.length_eq_zero_iff.1 hat.length.symm
    obtain rfl : stop' = stop := hat.stop
    exact ⟨a', rfl, fun owner => (ha owner).symm.trans (result_id owner goal a)⟩
  | deep hroom _ => exact absurd hroom (Nat.lt_irrefl 0)

end Places

theorem ReadsStmts.program {bs : List Lexeme} {body : List Stmt} (h : ReadsStmts bs body) :
    ∀ᶠ depth in atTop, parse depth .program (.flat bs) = .ok (body, .flat []) := by
  rw [← map_add_atTop_eq_nat 1, eventually_map]
  filter_upwards [h] with depth h
  have hbody := h [] (by simp [EndsBody])
  rw [List.append_nil] at hbody
  exact hbody.program

theorem Program.ofSource_parse {source : String} {limits : Limits} {p : Program}
    (h : Program.ofSource source limits = .ok p) :
    ∃ start stop, parse limits.depth .program start = .ok (p.items, stop) := by
  unfold Program.ofSource Goal.ofSource at h
  cases hstart : Cursor.ofSource source with
  | error e => simp [hstart, Bind.bind, Except.bind] at h
  | ok start =>
    rw [hstart] at h
    cases hparse : (parse limits.depth .program).run start with
    | error e => simp [hparse, Bind.bind, Except.bind, throw, throwThe, MonadExceptOf.throw] at h
    | ok r =>
      simp [hparse, Bind.bind, Except.bind, Pure.pure, Except.pure] at h
      obtain rfl := h
      exact ⟨start, r.2, hparse⟩

/-- What is written for a script that was read is read as the same script up to places, at every
depth that is large enough and wherever its tokens are put. -/
theorem Program.parse_written (source : String) (limits : Limits) (p : Program)
    (h : Program.ofSource source limits = .ok p) (spell : Pos → Number → String)
    (hspell : SpellsNumerals spell) (tokens : List Token)
    (htokens : tokens.map (·.lexeme) = bodyLexemes spell p.items) (stop : Pos) :
    ∃ least, ∀ depth, least ≤ depth →
      ∃ items, parse depth .program ⟨tokens, stop⟩ = .ok (items, ⟨[], stop⟩) ∧
        items.map (unplaced.stmt none) = p.items.map (unplaced.stmt none) := by
  obtain ⟨start, end', hp⟩ := Program.ofSource_parse h
  have hproper : bodyProper (fun _ => True) p.items :=
    ((takes_parse limits.depth .program start fun _ _ _ _ => trivial).result hp).2
  have hread := ReadsStmts.program (reads_stmts hspell none p.items hproper)
  rw [← htokens] at hread
  obtain ⟨least, hleast⟩ := eventually_atTop.1 hread
  refine ⟨least, fun depth hdepth => ?_⟩
  obtain ⟨items, hitems, heq⟩ := parse_placed (hleast depth hdepth) stop
  exact ⟨items, hitems, (heq none).trans (body_eq_map unplaced none p.items)⟩

theorem spellsNumerals_invFun :
    SpellsNumerals fun _ => Function.invFun Number.ofNumeral :=
  fun _ numeral => Function.invFun_eq ⟨numeral, rfl⟩

/-- A script whose parentheses are all needed, the choice at its start and the called field
included: all of them are written again. -/
theorem Program.parse_written_parens :
    let source := "(if a \x7b b \x7d else \x7b c \x7d).d = (x - 1) * (e.f)(-y);"
    let spell : Pos → Number → String := fun _ => Function.invFun Number.ofNumeral
    SpellsNumerals spell ∧ ∃ p, Program.ofSource source .default = .ok p ∧
      (bodyLexemes (fun _ _ => "1") p.items).map (·.spelling) =
        ["(", "if", "a", "\x7b", "b", "\x7d", "else", "\x7b", "c", "\x7d", ")", ".", "d", "=",
          "(", "x", "-", "1", ")", "*", "(", "e", ".", "f", ")", "(", "-", "y", ")", ";"] ∧
      ∃ least, ∀ depth, least ≤ depth →
        ∃ items, parse depth .program (.flat (bodyLexemes spell p.items)) = .ok (items, .flat []) ∧
          items.map (unplaced.stmt none) = p.items.map (unplaced.stmt none) := by
  intro source spell
  have hwritten : (Program.ofSource source .default).toOption.map
      (fun p => (bodyLexemes (fun _ _ => "1") p.items).map (·.spelling)) =
        some ["(", "if", "a", "\x7b", "b", "\x7d", "else", "\x7b", "c", "\x7d", ")", ".", "d", "=",
          "(", "x", "-", "1", ")", "*", "(", "e", ".", "f", ")", "(", "-", "y", ")", ";"] := by
    decide +kernel
  cases hp : Program.ofSource source .default with
  | error e => simp [hp, Except.toOption] at hwritten
  | ok p =>
    rw [hp] at hwritten
    have htokens : (Cursor.flat (bodyLexemes spell p.items)).rest.map (·.lexeme) =
        bodyLexemes spell p.items := by
      simp [Cursor.flat, Function.comp_def]
    refine ⟨spellsNumerals_invFun, p, rfl, Option.some.inj hwritten, ?_⟩
    exact parse_written source .default p hp spell spellsNumerals_invFun _ htokens .start

end Rustlet
