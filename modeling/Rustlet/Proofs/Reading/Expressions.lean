import Rustlet.Proofs.Reading.Levels

namespace Rustlet.Grammar

open Filter Parse

variable {literals callable : Bool} {ls : List Lexeme} {e : Expr}

theorem Ends.spells_false {level : Level} {rest : List Lexeme}
    (h : Ends level literals rest) (spelling : String)
    (hs : ∀ s, (s.text == spelling) = false ∨ Lexeme.ends level literals (.symbol s) = false) :
    (rest[0]?.any fun l => l.spelling == spelling) = false := by
  cases rest with
  | nil => rfl
  | cons l rest =>
    have hl := h l rfl
    cases l with
    | symbol s =>
      rcases hs s with hs | hs
      · exact hs
      · exact absurd hl (by simp [hs])
    | _ => exact Bool.noConfusion hl

theorem reads_number (numeral : String) :
    Reads (.primary literals) (Ends .primary literals) [.number numeral]
      (.number .start (.ofNumeral numeral)) := by
  refine .of_rule (.of_forall fun depth rest _ => ?_)
  change primaryRule (parse depth) literals _ = _
  simp [primaryRule]

theorem reads_text (content : String) :
    Reads (.primary literals) (Ends .primary literals) [.text content] (.text .start content) := by
  refine .of_rule (.of_forall fun depth rest _ => ?_)
  change primaryRule (parse depth) literals _ = _
  simp [primaryRule]

theorem reads_bool (b : Bool) :
    Reads (.primary literals) (Ends .primary literals)
      [.keyword (if b then .trueKw else .falseKw)] (.bool .start b) := by
  refine .of_rule (.of_forall fun depth rest _ => ?_)
  change primaryRule (parse depth) literals _ = _
  cases b <;> simp [primaryRule]

theorem opensFields_flat (x : Lexeme) (rest : List Lexeme)
    (h : (rest[0]?.any fun l => l.spelling == "\x7b") = false) :
    opensFields (.flat (x :: rest)) = .ok (false, .flat (x :: rest)) := by
  have hspells : (Cursor.flat (x :: rest)).spells 1 "\x7b" = false := by
    simpa [Cursor.spells, Cursor.lexeme?, Cursor.flat, Function.comp_def] using h
  simp [opensFields, hspells]

theorem reads_name (name : String) :
    Reads (.primary literals) (Ends .primary literals) [nameLexeme name] (.name .start name) := by
  refine .of_rule (.of_forall fun depth rest hrest => ?_)
  change primaryRule (parse depth) literals _ = _
  by_cases hself : name = selfName
  · simp [primaryRule, nameLexeme, hself]
  · have hbang := hrest.spells_false "!" (by
      intro s
      cases s <;> first | exact .inl rfl | exact .inr rfl)
    have hpath := hrest.spells_false "::" (by
      intro s
      cases s <;> first | exact .inl rfl | exact .inr rfl)
    cases literals with
    | true =>
      have hbrace := hrest.spells_false "\x7b" (by
        intro s
        cases s <;> first | exact .inl rfl | exact .inr rfl)
      have hfields := opensFields_flat (.ident name) rest hbrace
      simp [primaryRule, nameLexeme, hself, named, hbang, hpath, hfields]
    | false => simp [primaryRule, nameLexeme, hself, named, hbang, hpath, opensFields]

theorem reads_unaryOp (op : UnaryOp) (h : Reads (.unary literals) (Ends .unary literals) ls e) :
    Reads (.unary literals) (Ends .unary literals) (.symbol op.symbol :: ls)
      (.unary .start op e) := by
  refine .of_rule ?_
  filter_upwards [h] with depth h rest hrest
  change unaryRule (parse depth) literals _ = _
  have hop : unaryOp? (.symbol op.symbol) = some op := by
    cases op <;> rfl
  simp [unaryRule, hop, h rest hrest]

section Infix

variable {right : Expr} {rs : List Lexeme}

theorem chains_join {level : Level} {operator? : Lexeme → Option (Expr → Expr → Expr)}
    {s : Symbol} {join : Expr → Expr → Expr} (hops : joinOp? level = some operator?)
    (hop : operator? (.symbol s) = some join) (hs : s.continues? = some level)
    (hleft : Chains literals callable level ls e)
    (hright : Reads (levelGoal literals level.next) (Ends level.next literals) rs right) :
    Chains literals true level (ls ++ .symbol s :: rs) (join e right) := by
  filter_upwards [hleft, hright] with depth hleft hright step hstep rest hrest _ e' c' hext
  obtain rfl : joinStep (parse depth (levelGoal literals level.next)) operator? = step := by
    cases level <;> cases hops <;> cases hstep <;> rfl
  have hends : Ends level.next literals (.symbol s :: (rs ++ rest)) := by
    intro l hl
    obtain rfl : Lexeme.symbol s = l := Option.some.inj hl
    cases level <;> cases hops <;> cases s <;> first | rfl | cases hs
  have hparen : s ≠ .openParen := by
    rintro rfl
    cases hs
    cases hops
  rw [List.append_assoc]
  refine hleft _ hstep _ hends (.inr (by simpa using hparen)) e' c' ?_
  refine .more (b := join e right) (d := .flat rest) ?_ ?_ hext
  · simp [joinStep, hop, hright rest hrest]
  · simp only [Cursor.length_flat, List.length_append, List.length_cons]
    omega

theorem reads_comparisonOp {op : BinaryOp} (hop : op.level = .comparison)
    (hleft : Reads (.sum literals) (Ends .sum literals) ls e)
    (hright : Reads (.sum literals) (Ends .sum literals) rs right) :
    Reads (.comparison literals) (Ends .comparison literals) (ls ++ .symbol op.symbol :: rs)
      (.binary op e right) := by
  refine .of_rule ?_
  filter_upwards [hleft, hright] with depth hleft hright rest hrest
  have hcomparison : comparisonOp? (.symbol op.symbol) = some op := by
    cases op with
    | arith op => cases op <;> cases hop
    | order op => cases op <;> rfl
    | _ => rfl
  have hends : Ends .sum literals (.symbol op.symbol :: (rs ++ rest)) := by
    intro l hl
    obtain rfl : Lexeme.symbol op.symbol = l := Option.some.inj hl
    cases op with
    | arith op => cases op <;> cases hop
    | order op => cases op <;> rfl
    | _ => rfl
  have hend := comparisonOp?_ends hrest
  change comparisonRule (parse depth) literals _ = _
  simp [comparisonRule, hleft _ hends, hcomparison, hright rest hrest.tighten, hend]

theorem opens_binary (op : BinaryOp)
    (hleft : Opens literals callable op.level.left ls e)
    (hright : Reads (levelGoal literals op.level.next) (Ends op.level.next literals) rs right) :
    Opens literals true op.level (ls ++ .symbol op.symbol :: rs) (.binary op e right) := by
  by_cases hlevel : op.level = .comparison
  · rw [hlevel] at hleft hright ⊢
    exact Reads.opens_of_not_loops rfl (reads_comparisonOp hlevel hleft.reads hright)
  · have hjoin : ∃ operator?, joinOp? op.level = some operator? ∧
        operator? (.symbol op.symbol) = some (.binary op) := by
      cases op with
      | arith op => cases op <;> exact ⟨_, rfl, rfl⟩
      | _ => exact absurd rfl hlevel
    obtain ⟨operator?, hops, hop⟩ := hjoin
    have hleft : Chains literals callable op.level ls e := by
      cases op with
      | arith op => cases op <;> exact hleft.chains
      | _ => exact absurd rfl hlevel
    refine (chains_join hops hop ?_ hleft hright).opens ?_
    all_goals
      cases op with
      | arith op => cases op <;> rfl
      | _ => exact absurd rfl hlevel

theorem opens_logic (op : LogicOp)
    (hleft : Opens literals callable op.level.left ls e)
    (hright : Reads (levelGoal literals op.level.next) (Ends op.level.next literals) rs right) :
    Opens literals true op.level (ls ++ .symbol op.symbol :: rs) (.logic op e right) := by
  cases op with
  | and => exact (chains_join rfl rfl rfl hleft.chains hright).opens rfl
  | or => exact (chains_join rfl rfl rfl hleft.chains hright).opens rfl

end Infix

theorem readsItem_expr {level : Level} (h : Opens true callable level ls e) :
    ∀ᶠ depth in atTop, ReadsItem .closeParen (parse depth (.expr true)) ls e := by
  filter_upwards [h.expr] with depth h
  -- A closing parenthesis can follow the item but cannot start it.
  have hclose := h [Lexeme.symbol .closeParen] (by simp [Ends, Lexeme.ends])
  obtain ⟨x, tail, hx, hstarts⟩ := expr_starts hclose
  have hparen : x ≠ .symbol .closeParen := by
    rintro rfl
    cases hstarts
  cases ls with
  | nil =>
    obtain ⟨rfl, -⟩ := List.cons.inj hx
    exact absurd rfl hparen
  | cons l ls =>
    obtain ⟨rfl, -⟩ := List.cons.inj hx
    refine ⟨by simp, by simpa using hparen, fun s hs rest => h _ ?_⟩
    rcases hs with rfl | rfl <;> simp [Ends, Lexeme.ends]

section Postfix

variable {lss : List (List Lexeme)} {args : List Expr}

theorem reads_args
    (h : ∀ᶠ depth in atTop,
      List.Forall₂ (ReadsItem .closeParen (parse depth (.expr true))) lss args) :
    Reads .args (fun _ => True) (inParens lss) args := by
  refine .of_rule ?_
  filter_upwards [h] with depth h rest _
  have hlist := listUntil_listed (by decide) h rest
  change argsRule (parse depth) _ = _
  simp [argsRule, hlist]

/-- A suffix that is read after an expression continues it. -/
theorem Opens.suffix {callable' : Bool} {ms : List Lexeme} {longer : Expr}
    (h : Opens literals callable .postfixed ls e) (hms : ms ≠ [])
    (hends : ∀ rest, Ends .primary literals (ms ++ rest))
    (hcall : callable = true ∨ ms.head? ≠ some (.symbol .openParen))
    (hsuffix : ∀ᶠ depth in atTop, ∀ rest,
      callable' = true ∨ rest.head? ≠ some (.symbol .openParen) →
      Grammar.suffix (parse depth) e (.flat (ms ++ rest)) = .ok (some longer, .flat rest)) :
    Opens literals callable' .postfixed (ls ++ ms) longer := by
  refine Chains.opens rfl ?_
  filter_upwards [h.chains, hsuffix] with depth h hsuffix step hstep rest hrest hcall' e' c' hext
  obtain rfl : Grammar.suffix (parse depth) = step := Option.some.inj hstep
  rw [List.append_assoc]
  have hhead : (ms ++ rest).head? = ms.head? := List.head?_append_of_ne_nil ms hms
  refine h _ rfl (ms ++ rest) (hends rest) (by rwa [hhead]) e' c' ?_
  refine .more (hsuffix rest hcall') ?_ hext
  have hlength := List.length_pos_of_ne_nil hms
  simp only [Cursor.length_flat, List.length_append]
  omega

theorem opens_field (name : String) (h : Opens literals callable .postfixed ls e) :
    Opens literals false .postfixed (ls ++ [.symbol .dot, .ident name])
      (.field .start e name) := by
  refine h.suffix (by simp) (fun rest => ?_) (.inr (by simp)) ?_
  · simp [Ends, Lexeme.ends, Symbol.continues?, Level.rank]
  · refine .of_forall fun depth rest hrest => ?_
    have hparen : rest.head? ≠ some (.symbol .openParen) := by simpa using hrest
    simp [Grammar.suffix, hparen]

theorem opens_methodCall (method : String) (h : Opens literals callable .postfixed ls e)
    (hargs : Reads .args (fun _ => True) (inParens lss) args) :
    Opens literals true .postfixed (ls ++ .symbol .dot :: .ident method :: inParens lss)
      (.methodCall .start e method args) := by
  refine h.suffix (by simp) (fun rest => ?_) (.inr (by simp)) ?_
  · simp [Ends, Lexeme.ends, Symbol.continues?, Level.rank]
  · filter_upwards [hargs] with depth hargs rest _
    have hread := hargs rest trivial
    rw [inParens_append] at hread
    simp [Grammar.suffix, hread]

theorem opens_call (h : Opens literals true .postfixed ls e)
    (hargs : Reads .args (fun _ => True) (inParens lss) args) :
    Opens literals true .postfixed (ls ++ inParens lss) (.call .start e args) := by
  refine h.suffix (by simp [inParens]) (fun rest => ?_) (.inl rfl) ?_
  · simp [Ends, Lexeme.ends, Symbol.continues?, Level.rank]
  · filter_upwards [hargs] with depth hargs rest _
    have hread := hargs rest trivial
    rw [inParens_append] at hread
    simp [Grammar.suffix, hread]

theorem reads_pathCall (type : TypePath) (name : String)
    (hargs : Reads .args (fun _ => True) (inParens lss) args) :
    Reads (.primary literals) (Ends .primary literals)
      (type.lexeme :: .symbol .pathSep :: .ident name :: inParens lss)
      (.pathCall .start type name args) := by
  refine .of_rule ?_
  filter_upwards [hargs] with depth hargs rest _
  have hread := hargs rest trivial
  rw [inParens_append] at hread
  change primaryRule (parse depth) literals _ = _
  have hpath : (Lexeme.symbol .pathSep).spelling = "::" := rfl
  cases type with
  | selfType => simp [primaryRule, TypePath.lexeme, selfTyped, pathCall, hread, hpath]
  | named type => simp [primaryRule, TypePath.lexeme, named, pathCall, hread, hpath]

theorem reads_macroCall (name : String)
    (hargs : Reads .args (fun _ => True) (inParens lss) args) :
    Reads (.primary literals) (Ends .primary literals)
      (.ident name :: .symbol .bang :: inParens lss) (.macroCall .start name args) := by
  refine .of_rule ?_
  filter_upwards [hargs] with depth hargs rest _
  have hread := hargs rest trivial
  rw [inParens_append] at hread
  change primaryRule (parse depth) literals _ = _
  have hbang : (Lexeme.symbol .bang).spelling = "!" := rfl
  have hparen : (Lexeme.symbol .openParen).spelling = "(" := rfl
  simp [primaryRule, named, hread, hbang, hparen]

end Postfix

section StructLit

variable {lss : List (List Lexeme)} {fields : List FieldInit}

theorem readsItem_init {level : Level} (name : String) (h : Opens true callable level ls e) :
    ∀ᶠ depth in atTop, ReadsItem .closeBrace (fieldInit (parse depth))
      (.ident name :: .symbol .colon :: ls) ⟨.start, name, e⟩ := by
  filter_upwards [h.expr] with depth h
  refine ⟨by simp, by simp, ?_⟩
  intro s hs rest
  have hread := h (.symbol s :: rest) (by rcases hs with rfl | rfl <;> simp [Ends, Lexeme.ends])
  simp [fieldInit, hread]

theorem opensFields_listed (type : Lexeme)
    (hnames : ∀ ls ∈ lss, ∃ name tail, ls = .ident name :: tail) (rest : List Lexeme) :
    let ls := type :: .symbol .openBrace :: (listed lss ++ .symbol .closeBrace :: rest)
    opensFields (.flat ls) = .ok (true, .flat ls) := by
  cases lss with
  | nil => rfl
  | cons ls more =>
    obtain ⟨name, tail, rfl⟩ := hnames ls (by simp)
    cases more <;> rfl

theorem reads_structLit (type : TypePath)
    (hnames : ∀ ls ∈ lss, ∃ name tail, ls = .ident name :: tail)
    (h : ∀ᶠ depth in atTop,
      List.Forall₂ (ReadsItem .closeBrace (fieldInit (parse depth))) lss fields) :
    Reads (.primary true) (Ends .primary true) (type.lexeme :: inBraces (listed lss))
      (.structLit .start type fields) := by
  have hlit : Reads (.structLit type) (fun _ => True) (type.lexeme :: inBraces (listed lss))
      (.structLit .start type fields) := by
    refine .of_rule ?_
    filter_upwards [h] with depth h rest _
    have hlist := listUntil_listed (by decide) h rest
    change structLitRule (parse depth) type _ = _
    simp [structLitRule, hlist]
  refine .of_rule ?_
  filter_upwards [hlit] with depth hlit rest _
  have hread := hlit rest trivial
  rw [List.cons_append, inBraces_append] at hread ⊢
  have hfields := opensFields_listed type.lexeme hnames rest
  have hbrace : (Lexeme.symbol .openBrace).spelling = "\x7b" := rfl
  change primaryRule (parse depth) true _ = _
  cases type with
  | selfType =>
    simp only [TypePath.lexeme] at hread hfields
    simp [primaryRule, TypePath.lexeme, selfTyped, hread, hbrace]
  | named type =>
    simp only [TypePath.lexeme] at hread hfields
    simp [primaryRule, TypePath.lexeme, named, hread, hfields, hbrace]

end StructLit

/-- What cannot continue a choice. -/
def EndsChoice (rest : List Lexeme) : Prop := rest.head? ≠ some (.keyword .elseKw)

theorem Ends.endsChoice {level : Level} {rest : List Lexeme} (h : Ends level literals rest) :
    EndsChoice rest := by
  intro hr
  exact Bool.noConfusion (h _ hr)

theorem reads_choice {c : Conditional}
    (h : Reads .conditional EndsChoice (.keyword .ifKw :: ls) c) :
    Reads (.primary literals) (Ends .primary literals) (.keyword .ifKw :: ls)
      (.conditional c) := by
  refine .of_rule ?_
  filter_upwards [h] with depth h rest hrest
  have hread := h rest hrest.endsChoice
  rw [List.cons_append] at hread ⊢
  change primaryRule (parse depth) literals _ = _
  simp [primaryRule, hread]

end Rustlet.Grammar
