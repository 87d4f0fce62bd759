import Rustlet.Proofs.Extent
import Rustlet.Proofs.Reading.Statements

/-! Every rule of the grammar gives proper trees if the readings of its parts do. -/
namespace Rustlet.Grammar

open Parse Cursor

/-- A lexeme other than the semicolon. -/
def NoSemicolon (l : Lexeme) : Prop := l ≠ .symbol .semicolon

/-- Whether no statement can start at a cursor, since it is the end of a body or of the script. -/
def Closed (c : Cursor) : Prop := c.lexeme? 0 = none ∨ c.lexeme? 0 = some (.symbol .closeBrace)

variable {word : String → Prop} {read : Reader}

/-- A proper expression, which never ends in a semicolon. -/
abbrev ReadExpr (word : String → Prop) : Cursor → Expr → Cursor → Prop :=
  Ending (Expr.Proper word) NoSemicolon

/-- A proper statement that is not open. -/
abbrev ReadClosed (word : String → Prop) : Cursor → Stmt → Cursor → Prop :=
  Ending (fun s => s.Proper word ∧ s.isOpen = false) fun _ => True

/-- A statement that is proper. If it is open, its last token is no semicolon, and no statement can
follow. -/
structure ReadStmt (word : String → Prop) (c : Cursor) (s : Stmt) (c' : Cursor) : Prop where
  proper : s.Proper word
  last : EndsIn (fun l => s.isOpen = true → NoSemicolon l) c c'
  closed : s.isOpen = true → Closed c'

instance : Absorbing (ReadStmt word) :=
  ⟨fun hearlier h => ⟨h.proper, h.last.earlier hearlier, h.closed⟩⟩

/-- A statement other than an open expression may end in any token. -/
theorem ReadStmt.of_not_open {c c' : Cursor} {s : Stmt} {p : Lexeme → Prop}
    (h : s.Proper word ∧ s.isOpen = false) (hend : EndsIn p c c') : ReadStmt word c s c' := by
  have hno : s.isOpen ≠ true := Bool.eq_false_iff.1 h.2
  exact ⟨h.1, hend.mono fun _ _ ho => absurd ho hno, fun ho => absurd ho hno⟩

theorem ReadStmt.of_closed {c c' : Cursor} {s : Stmt} (h : ReadClosed word c s c') :
    ReadStmt word c s c' :=
  .of_not_open h.1 h.2

/-- What a construct gives, and the last of its tokens. The name of the type of a struct literal is
found before the literal is read. -/
def Goal.Given (word : String → Prop) : {α : Type} → Goal α → Cursor → α → Cursor → Prop
  | _, .program => Giving (bodyProper word)
  | _, .receiver => Any
  | _, .stmt => ReadStmt word
  | _, .exprStmt => ReadStmt word
  | _, .decl => ReadClosed word
  | _, .letStmt => ReadClosed word
  | _, .whileStmt => ReadClosed word
  | _, .returnStmt => ReadClosed word
  | _, .structDecl => Ending (StructDecl.Proper word) fun _ => True
  | _, .implBlock => Ending (ImplBlock.Proper word) fun _ => True
  | _, .fnDecl => Ending (FnDecl.Proper word) fun _ => True
  | _, .param => Ending (Param.Proper word) fun _ => True
  | _, .type => Ending (TypeExpr.Proper word) fun _ => True
  | _, .block => Ending (bodyProper word) NoSemicolon
  | _, .conditional => Ending (Conditional.Proper word) NoSemicolon
  | _, .expr _ => ReadExpr word
  | _, .disjunction _ => ReadExpr word
  | _, .conjunction _ => ReadExpr word
  | _, .comparison _ => ReadExpr word
  | _, .sum _ => ReadExpr word
  | _, .product _ => ReadExpr word
  | _, .unary _ => ReadExpr word
  | _, .postfixed _ => ReadExpr word
  | _, .primary _ => ReadExpr word
  | _, .args => Ending (exprsProper word) NoSemicolon
  | _, .structLit t => Ending (fun e => t.Proper word → e.Proper word) NoSemicolon

section Expressions

theorem takes_leftJoined {operand : Parse Expr} {operator? : Lexeme → Option (Expr → Expr → Expr)}
    (hop : Joins operator?) (h : Takes word operand (ReadExpr word)) :
    Takes word (leftJoined operand operator?) (ReadExpr word) := by
  refine h.extended fun left hleft c hc => .look rfl ?_
  split
  · exact .pure rfl
  · rename_i join hjoin
    obtain ⟨l, -, hl⟩ := Option.bind_eq_some_iff.1 hjoin
    refine (takes_advance c hc).bind fun hlater _ => (h _ (hc.later hlater)).bind fun _ hright => ?_
    refine .pure ⟨?_, hright.2.earlier hlater⟩
    rcases hop.joined l join hl with ⟨op, rfl⟩ | ⟨op, rfl⟩
    · exact ⟨hleft, hright.1⟩
    · exact ⟨hleft, hright.1⟩

variable (hread : ∀ {α : Type} (goal : Goal α), Takes word (read goal) (goal.Given word))

include hread

theorem takes_typeRule :
    Takes word (typeRule read) (Ending (TypeExpr.Proper word) fun _ => True) := by
  refine .ifSkip ?_ (.ifSkip ?_ (.ifSkip ?_ ?_))
  · exact (takes_expect _).next fun _ _ => (takes_skip _).next fun _ _ =>
      (hread .type).last fun _ h => h
  · exact (takes_expect _).next fun _ _ =>
      (takes_symbol _).last fun _ h => ⟨trivial, h.2.mono fun _ _ => trivial⟩
  · exact (takes_expect _).last fun _ h => ⟨trivial, h.2.mono fun _ _ => trivial⟩
  · exact takes_ident.last fun _ h => ⟨h.1, h.2.mono fun _ _ => trivial⟩

theorem takes_comparisonRule (literals : Bool) :
    Takes word (comparisonRule read literals) (ReadExpr word) := by
  refine fun c hc => (hread (.sum literals) c hc).bind fun {left c₁} hlater hleft => .look rfl ?_
  split
  · exact .pure hleft
  · rename_i op _
    have hright : Takes word (do
        advance
        let right ← read (.sum literals)
        if ((← current).bind comparisonOp?).isSome then unexpected .comparisonEnd
        else pure (Expr.binary op left right)) (ReadExpr word) :=
      takes_advance.next fun _ _ c hc => (hread (.sum literals) c hc).bind fun _ hright =>
        .look rfl (.ite (fun _ => .unexpected _) fun _ => .pure ⟨⟨hleft.1, hright.1⟩, hright.2⟩)
    exact (hright c₁ (hc.later hlater)).mono fun _ h => Absorbing.earlier hlater h

theorem takes_unaryRule (literals : Bool) :
    Takes word (unaryRule read literals) (ReadExpr word) := by
  refine takes_current.next fun l? _ => ?_
  split
  · exact hread (.postfixed literals)
  · exact takes_here.next fun _ _ => takes_advance.next fun _ _ =>
      (hread (.unary literals)).last fun _ h => h

theorem takes_suffix {e : Expr} (he : e.Proper word) :
    Takes word (suffix read e) (Extending (Expr.Proper word) NoSemicolon) := by
  refine .ifSkip ?_ fun c hc => .look rfl (.ite (fun _ => ?_) fun _ => .pure rfl)
  -- Behind a dot, an extension follows in any case.
  · refine Takes.mono (P := Ending (fun b => ∃ e', b = some e' ∧ e'.Proper word) NoSemicolon) ?_ ?_
    · refine (takes_expect _).next fun _ _ => takes_here.next fun _ _ c hc =>
        (takes_ident c hc).bind fun {_ c₁} hlater hname =>
          .look rfl (.ite (fun _ => ?_) fun _ => ?_)
      · exact (hread .args c₁ (hc.later hlater)).bind fun _ hargs =>
          .pure ⟨⟨_, rfl, he, hname.1, hargs.1⟩, hargs.2.earlier hlater⟩
      · exact .pure ⟨⟨_, rfl, he, hname.1⟩, hname.2.mono fun _ ⟨_, h⟩ => h ▸ nofun⟩
    · rintro c _ c' ⟨⟨e', rfl, he'⟩, hend⟩
      exact ⟨he', hend⟩
  · exact .look rfl ((hread .args c hc).bind fun _ hargs => .pure ⟨⟨he, hargs.1⟩, hargs.2⟩)

theorem takes_postfixedRule (literals : Bool) :
    Takes word (postfixedRule read literals) (ReadExpr word) :=
  Takes.extended (hread (.primary literals)) fun _ he => takes_suffix hread he

theorem takes_argsRule : Takes word (argsRule read) (Ending (exprsProper word) NoSemicolon) :=
  (takes_symbol _).next fun _ _ => (takes_listUntil _ (hread (.expr true)).giving).next
    fun args hargs => (takes_symbol _).last fun _ h =>
      ⟨(exprsProper_iff word args).2 hargs, h.2.mono fun _ h => h ▸ nofun⟩

theorem takes_fieldInit : Takes word (fieldInit read) (Giving (FieldInit.Proper word)) := by
  refine takes_here.next fun _ _ => takes_ident.next fun _ hname => .ifSkip ?_ ?_
  · exact (takes_expect _).next fun _ _ => (hread (.expr true)).last fun _ h => ⟨hname.1, h.1⟩
  · exact (takes_seesSymbol _).next fun _ _ => (takes_seesSymbol _).next fun _ _ =>
      .ite (.pure fun _ => ⟨hname.1, .inl hname.1⟩) (.unexpected _)

theorem takes_structLitRule (type : TypePath) : Takes word (structLitRule read type)
    (Ending (fun e => type.Proper word → e.Proper word) NoSemicolon) :=
  takes_here.next fun _ _ => takes_advance.next fun _ _ => (takes_symbol _).next fun _ _ =>
    (takes_listUntil _ (takes_fieldInit hread)).next fun fields hfields =>
      (takes_symbol _).last fun _ h =>
        ⟨fun htype => ⟨htype, (initsProper_iff word fields).2 hfields⟩,
          h.2.mono fun _ h => h ▸ nofun⟩

theorem takes_pathCall (type : TypePath) (htype : type.Proper word) :
    Takes word (pathCall read type) (ReadExpr word) := by
  refine takes_here.next fun _ _ => takes_advance.next fun _ _ => takes_advance.next fun _ _ =>
    takes_ident.next fun _ hname => (takes_seesSymbol _).next fun _ _ => .ite ?_ (.unexpected _)
  exact (hread .args).last fun _ h => ⟨⟨htype, hname.1, h.1⟩, h.2⟩

/-- Looking ahead stays at the cursor, so the name is still there when it is taken. -/
theorem takesAt_named {c : Cursor} (hc : c.Names word) {name : String}
    (hname : c.lexeme? 0 = some (.ident name)) (literals : Bool) :
    TakesAt c (named read literals name) (ReadExpr word c) := by
  have hword : word name := hc.word hname
  refine .look rfl (.look rfl (.ite (fun _ => ?_) fun _ => .look rfl (.ite (fun _ => ?_) fun _ =>
    .look rfl (.ite (fun _ => ?_) fun _ => .look rfl ?_))))
  · have hprint : Takes word (do
        let pos ← here
        advance
        advance
        let args ← read .args
        pure (Expr.macroCall pos name args)) (ReadExpr word) :=
      takes_here.next fun _ _ => takes_advance.next fun _ _ => takes_advance.next fun _ _ =>
        (hread .args).last fun _ h => ⟨⟨hword, h.1⟩, h.2⟩
    exact hprint c hc
  · exact takes_pathCall hread (.named name) hword c hc
  · exact (hread (.structLit (.named name)) c hc).mono fun _ h => ⟨h.1 hword, h.2⟩
  · exact takesAt_advance hname nofun (.inl hword)

theorem takes_selfTyped (literals : Bool) :
    Takes word (selfTyped read literals) (ReadExpr word) := by
  refine (takes_spells _ _).next fun _ _ => .ite (takes_pathCall hread .selfType trivial) ?_
  refine (takes_spells _ _).next fun _ _ => .ite ?_ (.unexpected _)
  exact (hread (.structLit .selfType)).mono fun h => ⟨h.1 trivial, h.2⟩

theorem takes_primaryRule (literals : Bool) :
    Takes word (primaryRule read literals) (ReadExpr word) := by
  refine fun c hc => .look rfl (.look rfl ?_)
  split
  · exact takesAt_advance ‹_› (by nofun) ⟨_, rfl⟩
  · exact takesAt_advance ‹_› (by nofun) trivial
  · exact takesAt_advance ‹_› (by nofun) trivial
  · exact takesAt_advance ‹_› (by nofun) trivial
  · exact (hread .conditional c hc).bind fun _ h => .pure h
  · exact takesAt_advance ‹_› (by nofun) (.inr rfl)
  · exact takes_selfTyped hread literals c hc
  · exact takesAt_named hread hc ‹_› literals
  · exact takes_advance.next (fun _ _ => (hread (.expr true)).next fun _ he =>
      (takes_symbol _).last fun _ h => ⟨he.1, h.2.mono fun _ h => h ▸ nofun⟩) c hc
  · exact .unexpected _

end Expressions

section Bodies

theorem Closed.skip_semicolon {c : Cursor} (h : Closed c) :
    Parse.skip (.symbol .semicolon) c = .ok (false, c) := by
  rcases h with h | h <;> simp [Parse.skip, sees, h]

theorem Closed.refuses_stmt {c : Cursor} (h : Closed c) (depth : Nat) :
    Refuses (parse depth .stmt) c := by
  rcases h with h | h
  · exact Grammar.refuses_stmt (.inl h) depth
  · exact Grammar.refuses_stmt (.inr (.inl h)) depth

/-- A round of a body stops, or it takes a semicolon or a statement where one can start. -/
inductive BodyRound (word : String → Prop) (c : Cursor) : Round Stmt → Cursor → Prop
  | stop : BodyRound word c .stop c
  | pass {c' : Cursor} {p : Lexeme → Prop} (hc : ¬ Closed c) (h : EndsIn p c c') :
    BodyRound word c .pass c'
  | item {c' : Cursor} {s : Stmt} (hc : ¬ Closed c) (h : ReadStmt word c s c') :
    BodyRound word c (.item s) c'

/-- A body that is proper. If its last token is a semicolon, its last statement is not open. -/
structure ReadBody (word : String → Prop) (c : Cursor) (body : List Stmt) (c' : Cursor) : Prop where
  proper : bodyProper word body
  closed : Closed c → c'.rest = c.rest
  empty : c'.rest = c.rest → body = []
  last : EndsIn (· = .symbol .semicolon) c c' → ∀ s ∈ body.getLast?, s.isOpen = false

namespace ReadBody

variable {c c₁ c' : Cursor} {s : Stmt} {body : List Stmt}

theorem nil (c : Cursor) : ReadBody word c [] c :=
  ⟨trivial, fun _ => rfl, fun _ => rfl, fun _ _ hs => by cases hs⟩

/-- Tokens without a statement in front of a body. -/
theorem pass {p : Lexeme → Prop} (hc : ¬ Closed c) (hfirst : EndsIn p c c₁)
    (h : ReadBody word c₁ body c') (hlater : c'.rest <:+ c₁.rest) : ReadBody word c body c' := by
  have hfront : c₁.rest <:+ c.rest := hfirst.suffix
  refine ⟨h.proper, fun hclosed => absurd hclosed hc,
    fun heq => absurd heq (hfirst.more hlater).ne, fun hend => ?_⟩
  by_cases hsame : c'.rest = c₁.rest
  · rw [h.empty hsame]
    exact fun _ hs => by cases hs
  · exact h.last (hend.later hfront hlater hsame)

/-- A statement in front of a body. -/
theorem item (hc : ¬ Closed c) (hfirst : ReadStmt word c s c₁) (h : ReadBody word c₁ body c')
    (hlater : c'.rest <:+ c₁.rest) : ReadBody word c (s :: body) c' := by
  have hfront : c₁.rest <:+ c.rest := hfirst.last.suffix
  have hopen : s.isOpen = true → body = [] :=
    fun ho => h.empty (h.closed (hfirst.closed ho))
  refine ⟨⟨hfirst.proper, hopen, h.proper⟩, fun hclosed => absurd hclosed hc,
    fun heq => absurd heq (hfirst.last.more hlater).ne, fun hend => ?_⟩
  cases body with
  | nil =>
    rintro _ ⟨⟩
    refine Bool.eq_false_iff.2 fun ho => ?_
    -- The statement is the last one, and the semicolon would be its own.
    have hsame : c'.rest = c₁.rest := h.closed (hfirst.closed ho)
    obtain ⟨l, hno, rfl⟩ := hfirst.last.unique (hend.congr hsame)
    exact hno ho rfl
  | cons s' body =>
    have hsame : c'.rest ≠ c₁.rest := fun heq => List.cons_ne_nil _ _ (h.empty heq)
    intro t ht
    rw [List.getLast?_cons_cons] at ht
    exact h.last (hend.later hfront hlater hsame) t ht

end ReadBody

theorem takes_bodyRounds {round : Parse (Round Stmt)} (h : Takes word round (BodyRound word))
    (fuel : List Token) : Takes word (rounds round fuel) (ReadBody word) := by
  induction fuel with
  | nil =>
    refine fun c hc => (h c hc).bind fun _ hr => ?_
    cases hr with
    | stop => exact .pure (.nil c)
    | pass hc hend => exact .pure (.pass hc hend (.nil _) List.suffix_rfl)
    | item hc hs => exact .pure (.item hc hs (.nil _) List.suffix_rfl)
  | cons t fuel ih =>
    refine fun c hc => (h c hc).bind fun {_ c₁} hlater hr => ?_
    have hrest := ih c₁ (hc.later hlater)
    cases hr with
    | stop => exact .pure (.nil c)
    | pass hc hend => exact hrest.mono fun hlater hbody => hbody.pass hc hend hlater
    | item hc hs => exact hrest.bind fun hlater hbody => .pure (.item hc hs hbody hlater)

theorem takes_bodyMany {round : Parse (Round Stmt)} (h : Takes word round (BodyRound word)) :
    Takes word (many round) (ReadBody word) :=
  fun c hc => ⟨fun ha => (takes_bodyRounds h c.rest c hc).result ha⟩

end Bodies

section Statements

/-- A semicolon that ends a statement, if it is there. -/
theorem takes_endStmt : Takes word endStmt fun c terminated c' =>
    terminated = false → c'.rest = c.rest ∧ Closed c' := by
  refine .ifSkip ((takes_expect _).last fun _ _ => nofun) fun c _ => .look rfl (.look rfl ?_)
  refine .ite (fun h => .pure fun _ => ⟨rfl, ?_⟩) fun _ => .unexpected _
  simp only [Bool.or_eq_true, decide_eq_true_eq, List.isEmpty_iff] at h
  rcases h with hbrace | hend
  · exact .inr hbrace
  · exact .inl (by simp [Cursor.lexeme?, hend])

theorem place?_proper {e : Expr} {target : Place} (h : place? e = some target)
    (he : e.Proper word) : target.Proper word := by
  cases e <;> cases h
  · exact he
  · exact he

variable (hread : ∀ {α : Type} (goal : Goal α), Takes word (read goal) (goal.Given word))

include hread

/-- A round of a body where a statement can start. -/
theorem takesAt_bodyRound {c : Cursor} (hc : c.Names word) (hopen : ¬ Closed c) :
    TakesAt c (do
      if ← skip (.symbol .semicolon) then pure .pass
      else
        let s ← read .stmt
        pure (.item s)) (BodyRound word c) := by
  have hround : Takes word (do
      if ← skip (.symbol .semicolon) then pure .pass
      else
        let s ← read .stmt
        pure (.item s)) fun c r c' => ¬ Closed c → BodyRound word c r c' :=
    .ifSkip ((takes_expect _).last fun _ h hopen => .pass hopen h.2)
      ((hread .stmt).last fun _ h hopen => .item hopen h)
  exact (hround c hc).mono fun _ h => h hopen

theorem takes_blockRound : Takes word (do
    if ← seesSymbol .closeBrace then pure .stop
    else if ← atEnd then unexpected (.lexeme (.symbol .closeBrace))
    else if ← skip (.symbol .semicolon) then pure .pass
    else
      let s ← read .stmt
      pure (.item s)) (BodyRound word) := by
  refine fun c hc => .look rfl (.ite (fun _ => .pure .stop) fun hbrace => .look rfl ?_)
  refine .ite (fun _ => .unexpected _) fun hend => takesAt_bodyRound hread hc ?_
  rintro (hnone | hclose)
  · exact hend (by simpa [Cursor.lexeme?] using hnone)
  · exact hbrace (by simpa using hclose)

/-- No statement starts with a closing brace that is left over. -/
theorem takes_programRound (hrefuses : ∀ c, Closed c → Refuses (read .stmt) c) : Takes word (do
    if ← atEnd then pure .stop
    else if ← skip (.symbol .semicolon) then pure .pass
    else
      let s ← read .stmt
      pure (.item s)) (BodyRound word) := by
  refine fun c hc => .look rfl (.ite (fun _ => .pure .stop) fun _ => ?_)
  by_cases hclosed : Closed c
  · refine .look hclosed.skip_semicolon ⟨fun h => ?_⟩
    obtain ⟨s, c₁, hs, -⟩ := bind_eq_ok h
    obtain ⟨e, he⟩ := hrefuses c hclosed
    cases hs.symm.trans he
  · exact takesAt_bodyRound hread hc hclosed

theorem takes_programRule (hrefuses : ∀ c, Closed c → Refuses (read .stmt) c) :
    Takes word (programRule read) (Giving (bodyProper word)) :=
  (takes_bodyMany (takes_programRound hread hrefuses)).mono fun h => h.proper

theorem takes_blockRule : Takes word (blockRule read) (Ending (bodyProper word) NoSemicolon) := by
  refine (takes_symbol _).next fun _ _ => (takes_bodyMany (takes_blockRound hread)).next
    fun body hbody => (takes_symbol _).last fun _ h => ⟨hbody.proper, h.2.mono fun _ h => h ▸ nofun⟩

theorem takes_letRule : Takes word (letRule read) (ReadClosed word) := by
  refine takes_here.next fun pos _ => (takes_keyword _).after fun _ _ => (takes_skip _).next
    fun _ _ => takes_ident.next fun name hname => (takes_skip _).next fun _ _ => ?_
  have hrest : ∀ type, (∀ t ∈ type, t.Proper word) → Takes word (do
      symbol .assign
      let value ← read (.expr true)
      symbol .semicolon
      pure (Stmt.letIn pos name type value)) (Giving fun s => s.Proper word ∧ s.isOpen = false) :=
    fun type htype => (takes_symbol _).next fun _ _ => (hread (.expr true)).next fun value hvalue =>
      (takes_symbol _).last fun _ _ => ⟨⟨hname.1, htype, hvalue.1⟩, rfl⟩
  have htype : Takes word (some <$> read .type) (Giving fun type => ∀ t ∈ type, t.Proper word) :=
    (hread .type).last fun t ht => by rintro _ ⟨⟩; exact ht.1
  exact .ite (htype.next hrest) (hrest none (by simp))

theorem takes_elseBranch : Takes word (elseBranch read) fun c elseBody c' =>
    bodyProper? word elseBody ∧ (c'.rest = c.rest ∨ EndsIn NoSemicolon c c') := by
  refine .ifSkip ?_ (.pure fun _ => ⟨trivial, .inl rfl⟩)
  refine Takes.mono (P := Ending (bodyProper? word) NoSemicolon) ?_ fun h => ⟨h.1, .inr h.2⟩
  refine (takes_expect _).next fun _ _ => (takes_seesKeyword _).next fun _ _ => .ite ?_ ?_
  · exact (hread .conditional).last fun _ h => ⟨⟨h.1, nofun, trivial⟩, h.2⟩
  · exact (hread .block).last fun _ h => h

theorem takes_conditionalRule :
    Takes word (conditionalRule read) (Ending (Conditional.Proper word) NoSemicolon) := by
  refine takes_here.next fun _ _ => (takes_keyword _).next fun _ _ => (hread (.expr false)).next
    fun _ hcondition c hc => (hread .block c hc).bind fun hlater hthen =>
    (takes_elseBranch hread _ (hc.later hlater)).bind fun _ helse => ?_
  refine .pure ⟨⟨hcondition.1, hthen.1, helse.1⟩, ?_⟩
  rcases helse.2 with hsame | hend
  · exact hthen.2.congr hsame.symm
  · exact hend.earlier hlater

theorem takes_whileRule : Takes word (whileRule read) (ReadClosed word) :=
  takes_here.next fun _ _ => (takes_keyword _).after fun _ _ => (hread (.expr false)).next
    fun _ hcondition => (hread .block).last fun _ h => ⟨⟨hcondition.1, h.1⟩, rfl⟩

theorem takes_returnRule : Takes word (returnRule read) (ReadClosed word) := by
  refine takes_here.next fun pos _ => (takes_keyword _).after fun _ _ =>
    (takes_seesSymbol _).next fun _ _ => (takes_seesSymbol _).next fun _ _ => ?_
  have hrest : ∀ value, exprProper? word value → Takes word (do
      let _ ← endStmt
      pure (Stmt.ret pos value)) (Giving fun s => s.Proper word ∧ s.isOpen = false) :=
    fun value hvalue => takes_endStmt.last fun _ _ => ⟨hvalue, rfl⟩
  have hvalue : Takes word (some <$> read (.expr true)) (Giving (exprProper? word)) :=
    (hread (.expr true)).last fun _ h => h.1
  exact .ite (hrest none trivial) (hvalue.next hrest)

theorem takes_exprStmtRule : Takes word (exprStmtRule read) (ReadStmt word) := by
  refine takes_here.next fun pos _ c hc => (hread (.expr true) c hc).bind fun {e c₁} hlater he =>
    .look rfl (.ite (fun _ => ?_) fun _ => ?_)
  · split
    · exact ⟨fun h => by cases h⟩
    · rename_i target htarget
      have hassign : Takes word (do
          advance
          let value ← read (.expr true)
          let _ ← endStmt
          pure (Stmt.assign pos target value))
          (Giving fun s => s.Proper word ∧ s.isOpen = false) :=
        takes_advance.next fun _ _ => (hread (.expr true)).next fun _ hvalue =>
          takes_endStmt.last fun _ _ => ⟨⟨place?_proper htarget he.1, hvalue.1⟩, rfl⟩
      exact (hassign c₁ (hc.later hlater)).mono fun hmore hs => .of_not_open hs (he.2.more hmore)
  · refine (takes_endStmt c₁ (hc.later hlater)).bind fun {terminated c₂} hmore hend => .pure ?_
    cases terminated with
    | true => exact .of_not_open ⟨he.1, rfl⟩ (he.2.more hmore)
    | false =>
      -- Nothing is taken behind the expression, so its last token is that of the statement.
      obtain ⟨hsame, hclosed⟩ := hend rfl
      exact ⟨he.1, (he.2.congr hsame.symm).mono fun _ hl _ => hl, fun _ => hclosed⟩

theorem takes_stmtRule : Takes word (stmtRule read) (ReadStmt word) := by
  refine takes_current.next fun l? _ => ?_
  split
  · exact (hread .decl).mono .of_closed
  · exact (hread .decl).mono .of_closed
  · exact (hread .decl).mono .of_closed
  · exact (hread .decl).mono .of_closed
  · exact (hread .letStmt).mono .of_closed
  · exact (hread .conditional).last fun _ h => .of_not_open ⟨h.1, rfl⟩ h.2
  · exact (hread .whileStmt).mono .of_closed
  · exact (hread .returnStmt).mono .of_closed
  · exact takes_here.next fun _ _ => (hread .block).last fun _ h => .of_not_open ⟨h.1, rfl⟩ h.2
  · exact hread .exprStmt

end Statements

section Declarations

theorem takes_receiverRule : Takes word receiverRule Any := by
  refine (takes_skip _).next fun _ _ => .ite (.pure fun _ => trivial) ?_
  refine (takes_seesSymbol _).next fun _ _ => (takes_spells _ _).next fun _ _ => .ite ?_ ?_
  · exact takes_advance.next fun _ _ => takes_advance.next fun _ _ => .pure fun _ => trivial
  · refine (takes_seesSymbol _).next fun _ _ => (takes_spells _ _).next fun _ _ =>
      (takes_spells _ _).next fun _ _ => .ite ?_ (.pure fun _ => trivial)
    exact takes_advance.next fun _ _ => takes_advance.next fun _ _ => takes_advance.next fun _ _ =>
      .pure fun _ => trivial

variable (hread : ∀ {α : Type} (goal : Goal α), Takes word (read goal) (goal.Given word))

include hread

theorem takes_declRule : Takes word (declRule read) (ReadClosed word) := by
  refine (takes_skip _).next fun _ _ => takes_current.next fun l? _ => ?_
  split
  · exact (hread .structDecl).last fun _ h => ⟨⟨h.1, rfl⟩, h.2⟩
  · exact (hread .implBlock).last fun _ h => ⟨⟨h.1, rfl⟩, h.2⟩
  · exact (hread .fnDecl).last fun _ h => ⟨⟨h.1, rfl⟩, h.2⟩
  · exact .unexpected _

theorem takes_fieldDecl : Takes word (fieldDecl read) (Giving (FieldDecl.Proper word)) :=
  (takes_skip _).next fun _ _ => takes_here.next fun _ _ => takes_ident.next fun _ hname =>
    (takes_symbol _).next fun _ _ => (hread .type).last fun _ h => ⟨hname.1, h.1⟩

theorem takes_structDeclRule :
    Takes word (structDeclRule read) (Ending (StructDecl.Proper word) fun _ => True) := by
  refine takes_here.next fun _ _ => (takes_keyword _).after fun _ _ => takes_ident.next
    fun _ hname => (takes_skip _).next fun _ _ => .ite (.pure fun _ => ⟨hname.1, nofun⟩) ?_
  exact (takes_symbol _).next fun _ _ => (takes_listUntil _ (takes_fieldDecl hread)).next
    fun _ hfields => (takes_symbol _).last fun _ _ => ⟨hname.1, hfields⟩

theorem takes_implBlockRule :
    Takes word (implBlockRule read) (Ending (ImplBlock.Proper word) fun _ => True) := by
  refine takes_here.next fun _ _ => (takes_keyword _).after fun _ _ => takes_ident.next
    fun _ hname => (takes_symbol _).next fun _ _ => ?_
  have hround : Takes word (do
      if ← seesSymbol .closeBrace then pure .stop
      else
        let _ ← skip (.keyword .pubKw)
        let decl ← read .fnDecl
        pure (.item decl)) (Giving (Round.Adds (FnDecl.Proper word))) :=
    (takes_seesSymbol _).next fun _ _ => .ite (.pure fun _ => trivial)
      ((takes_skip _).next fun _ _ => (hread .fnDecl).last fun _ h => h.1)
  exact (takes_many hround).next fun methods hmethods => (takes_symbol _).last fun _ _ =>
    ⟨hname.1, (fnDeclsProper_iff word methods).2 hmethods⟩

theorem takes_paramRule : Takes word (paramRule read) (Ending (Param.Proper word) fun _ => True) :=
  takes_here.next fun _ _ => (takes_skip _).next fun _ _ => takes_ident.next fun _ hname =>
    (takes_symbol _).next fun _ _ => (hread .type).last fun _ h => ⟨⟨hname.1, h.1⟩, h.2⟩

theorem takes_fnDeclRule :
    Takes word (fnDeclRule read) (Ending (FnDecl.Proper word) fun _ => True) := by
  refine takes_here.next fun pos _ => (takes_keyword _).after fun _ _ => takes_ident.next
    fun name hname => (takes_symbol _).next fun _ _ => (hread .receiver).next fun receiver _ =>
    (takes_seesSymbol _).next fun _ _ => ?_
  have hrest : Takes word (do
      let params ← listUntil .closeParen (read .param)
      symbol .closeParen
      let hasRet ← skip (.symbol .arrow)
      let ret ← if hasRet then read .type else pure .unit
      let body ← read .block
      pure (FnDecl.mk pos name receiver params ret body)) (Giving (FnDecl.Proper word)) := by
    refine (takes_listUntil _ (hread .param).giving).next fun params hparams =>
      (takes_symbol _).next fun _ _ => (takes_skip _).next fun _ _ => ?_
    have hbody : ∀ ret, ret.Proper word → Takes word (do
        let body ← read .block
        pure (FnDecl.mk pos name receiver params ret body)) (Giving (FnDecl.Proper word)) :=
      fun ret hret => (hread .block).last fun _ h => ⟨hname.1, hparams, hret, h.1⟩
    exact .ite ((hread .type).next fun ret hret => hbody ret hret.1) (hbody .unit trivial)
  exact .ite ((takes_symbol _).next fun _ _ => hrest) hrest

end Declarations

/-- One step: the rule of a construct, given that its parts are proper. -/
theorem takes_rule (hread : ∀ {α : Type} (goal : Goal α), Takes word (read goal) (goal.Given word))
    (hrefuses : ∀ c, Closed c → Refuses (read .stmt) c) {α : Type} (goal : Goal α) :
    Takes word (goal.rule read) (goal.Given word) := by
  cases goal with
  | program => exact takes_programRule hread hrefuses
  | stmt => exact takes_stmtRule hread
  | block => exact takes_blockRule hread
  | decl => exact takes_declRule hread
  | structDecl => exact takes_structDeclRule hread
  | implBlock => exact takes_implBlockRule hread
  | fnDecl => exact takes_fnDeclRule hread
  | receiver => exact takes_receiverRule
  | param => exact takes_paramRule hread
  | type => exact takes_typeRule hread
  | letStmt => exact takes_letRule hread
  | conditional => exact takes_conditionalRule hread
  | whileStmt => exact takes_whileRule hread
  | returnStmt => exact takes_returnRule hread
  | exprStmt => exact takes_exprStmtRule hread
  | expr literals => exact hread (.disjunction literals)
  | disjunction literals => exact takes_leftJoined joins_disjunction (hread (.conjunction literals))
  | conjunction literals => exact takes_leftJoined joins_conjunction (hread (.comparison literals))
  | comparison literals => exact takes_comparisonRule hread literals
  | sum literals => exact takes_leftJoined joins_sum (hread (.product literals))
  | product literals => exact takes_leftJoined joins_product (hread (.unary literals))
  | unary literals => exact takes_unaryRule hread literals
  | postfixed literals => exact takes_postfixedRule hread literals
  | primary literals => exact takes_primaryRule hread literals
  | args => exact takes_argsRule hread
  | structLit t => exact takes_structLitRule hread t

/-- Every construct is proper, however deep its parts nest. -/
theorem takes_parse (depth : Nat) {α : Type} (goal : Goal α) :
    Takes word (parse depth goal) (goal.Given word) := by
  induction depth generalizing α with
  | zero => exact .unexpected _
  | succ depth ih => exact takes_rule ih (fun _ h => h.refuses_stmt depth) goal

end Rustlet.Grammar
