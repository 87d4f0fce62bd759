import Rustlet.Proofs.Layout
import Rustlet.Proofs.Literals
import Rustlet.Proofs.Naming

/-! The trees that scripts are read as. -/
namespace Rustlet

open Filter Grammar Relabelling Scan

/-- Statements as they are read. An expression without a semicolon stands only at the end of a body,
in all bodies and choices, numbers have numerals, targets of assignments are names or fields, and
names are words that are not reserved. -/
def WellFormed (body : List Stmt) : Prop := bodyProper (isName · = true) body

/-- Lexemes that can be written. -/
def AllWritable (ls : List Lexeme) : Prop := ∀ l ∈ ls, l.Writable

section AllWritable

variable {ls ms : List Lexeme} {items : List (List Lexeme)}

@[simp] theorem allWritable_nil : AllWritable [] := by
  intro l hl
  cases hl

@[simp] theorem allWritable_cons {l : Lexeme} :
    AllWritable (l :: ls) ↔ l.Writable ∧ AllWritable ls :=
  List.forall_mem_cons

@[simp] theorem allWritable_append : AllWritable (ls ++ ms) ↔ AllWritable ls ∧ AllWritable ms :=
  List.forall_mem_append

@[simp] theorem writable_symbol (s : Symbol) : (Lexeme.symbol s).Writable := trivial

@[simp] theorem writable_keyword (k : Keyword) : (Lexeme.keyword k).Writable := trivial

@[simp] theorem writable_text (content : String) : (Lexeme.text content).Writable := trivial

@[simp] theorem writable_ident {name : String} :
    (Lexeme.ident name).Writable ↔ isName name = true :=
  Iff.rfl

theorem allWritable_listed (h : ∀ ls ∈ items, AllWritable ls) : AllWritable (listed items) := by
  fun_induction listed items with
  | case1 => exact allWritable_nil
  | case2 ls => exact h ls (by simp)
  | case3 ls more _ ih =>
    obtain ⟨hls, hmore⟩ := List.forall_mem_cons.1 h
    simpa using ⟨hls, ih hmore⟩

theorem allWritable_inParens (h : ∀ ls ∈ items, AllWritable ls) : AllWritable (inParens items) := by
  simpa [inParens] using allWritable_listed h

theorem allWritable_inBraces (h : AllWritable ls) : AllWritable (inBraces ls) := by
  simpa [inBraces] using h

theorem allWritable_enclosed (e : Expr) {bare : Bool → Bool → List Lexeme}
    (h : ∀ literals leading, AllWritable (bare literals leading)) (least : Level)
    (literals leading : Bool) : AllWritable (e.enclosed bare least literals leading) := by
  unfold Expr.enclosed
  split
  · simpa using h true false
  · exact h literals leading

end AllWritable

theorem writable_nameLexeme {name : String} (h : ProperName (isName · = true) name) :
    (nameLexeme name).Writable := by
  unfold nameLexeme
  split
  · trivial
  · rename_i hself
    exact h.resolve_right hself

theorem writable_typePath {type : TypePath} (h : type.Proper (isName · = true)) :
    type.lexeme.Writable := by
  cases type with
  | selfType => trivial
  | named name => exact h

theorem allWritable_type {t : TypeExpr} (h : t.Proper (isName · = true)) :
    AllWritable t.lexemes := by
  induction t with
  | path p => simpa [TypeExpr.lexemes] using writable_typePath h
  | unit => simp [TypeExpr.lexemes]
  | ref isMut target ih => cases isMut <;> simpa [TypeExpr.lexemes] using ih h

theorem allWritable_param {p : Param} (h : p.Proper (isName · = true)) : AllWritable p.lexemes := by
  simpa [Param.lexemes] using ⟨h.1, allWritable_type h.2⟩

theorem allWritable_fieldDecl {f : FieldDecl} (h : f.Proper (isName · = true)) :
    AllWritable f.lexemes := by
  simpa [FieldDecl.lexemes] using ⟨h.1, allWritable_type h.2⟩

theorem allWritable_receiver (r : Receiver) : AllWritable r.lexemes := by
  cases r <;> simp [Receiver.lexemes]

theorem allWritable_structDecl {d : StructDecl} (h : d.Proper (isName · = true)) :
    AllWritable d.lexemes := by
  have hfields : ∀ ls ∈ d.fields.map FieldDecl.lexemes, AllWritable ls :=
    List.forall_mem_map.2 fun f hf => allWritable_fieldDecl (h.2 f hf)
  simpa [StructDecl.lexemes] using ⟨h.1, allWritable_inBraces (allWritable_listed hfields)⟩

section Written

variable {spell : Pos → Number → String}

mutual

theorem allWritable_expr (hspell : ∀ pos n, Number.IsNumeral (spell pos n).toList) :
    ∀ (e : Expr), e.Proper (isName · = true) → ∀ literals leading : Bool,
      AllWritable (e.lexemes spell literals leading)
  | .number pos n, _, _, _ => by simpa [Expr.lexemes, Lexeme.Writable] using hspell pos n
  | .text .., _, _, _ => by simp [Expr.lexemes]
  | .bool _ b, _, _, _ => by cases b <;> simp [Expr.lexemes]
  | .name _ name, h, _, _ => by simpa [Expr.lexemes] using writable_nameLexeme h
  | .unary _ op operand, h, literals, _ => by
    have hoperand := allWritable_expr hspell operand h
    simpa [Expr.lexemes] using allWritable_enclosed operand hoperand _ _ _
  | .binary op left right, h, literals, leading => by
    have hleft := allWritable_expr hspell left h.1
    have hright := allWritable_expr hspell right h.2
    simpa [Expr.lexemes] using
      ⟨allWritable_enclosed left hleft _ _ _, allWritable_enclosed right hright _ _ _⟩
  | .logic op left right, h, literals, leading => by
    have hleft := allWritable_expr hspell left h.1
    have hright := allWritable_expr hspell right h.2
    simpa [Expr.lexemes] using
      ⟨allWritable_enclosed left hleft _ _ _, allWritable_enclosed right hright _ _ _⟩
  | .field _ object name, h, literals, leading => by
    have hobject := allWritable_expr hspell object h.1
    simpa [Expr.lexemes] using ⟨allWritable_enclosed object hobject _ _ _, h.2⟩
  | .call _ callee args, h, literals, leading => by
    have hcallee := allWritable_expr hspell callee h.1
    have hargs := allWritable_inParens (allWritable_exprs hspell args h.2)
    simpa [Expr.lexemes] using ⟨allWritable_enclosed callee hcallee _ _ _, hargs⟩
  | .pathCall _ type name args, h, _, _ => by
    have hargs := allWritable_inParens (allWritable_exprs hspell args h.2.2)
    simpa [Expr.lexemes] using ⟨writable_typePath h.1, h.2.1, hargs⟩
  | .methodCall _ receiver method args, h, literals, leading => by
    have hreceiver := allWritable_expr hspell receiver h.1
    have hargs := allWritable_inParens (allWritable_exprs hspell args h.2.2)
    simpa [Expr.lexemes] using ⟨allWritable_enclosed receiver hreceiver _ _ _, h.2.1, hargs⟩
  | .macroCall _ name args, h, _, _ => by
    have hargs := allWritable_inParens (allWritable_exprs hspell args h.2)
    simpa [Expr.lexemes] using ⟨h.1, hargs⟩
  | .structLit _ type fields, h, _, _ => by
    have hfields := allWritable_listed (allWritable_inits hspell fields h.2)
    simpa [Expr.lexemes] using ⟨writable_typePath h.1, allWritable_inBraces hfields⟩
  | .conditional c, h, _, _ => allWritable_choice hspell c h

theorem allWritable_exprs (hspell : ∀ pos n, Number.IsNumeral (spell pos n).toList) :
    ∀ (es : List Expr), exprsProper (isName · = true) es →
      ∀ ls ∈ exprsLexemes spell es, AllWritable ls
  | [], _, _, hls => by cases hls
  | e :: rest, h, ls, hls => by
    rcases List.mem_cons.1 hls with rfl | hls
    · exact allWritable_expr hspell e h.1 true false
    · exact allWritable_exprs hspell rest h.2 ls hls

theorem allWritable_inits (hspell : ∀ pos n, Number.IsNumeral (spell pos n).toList) :
    ∀ (fs : List FieldInit), initsProper (isName · = true) fs →
      ∀ ls ∈ initsLexemes spell fs, AllWritable ls
  | [], _, _, hls => by cases hls
  | ⟨_, name, value⟩ :: rest, h, ls, hls => by
    rcases List.mem_cons.1 hls with rfl | hls
    · simpa [FieldInit.lexemes] using ⟨h.1.1, allWritable_expr hspell value h.1.2 true false⟩
    · exact allWritable_inits hspell rest h.2 ls hls

theorem allWritable_choice (hspell : ∀ pos n, Number.IsNumeral (spell pos n).toList) :
    ∀ (c : Conditional), c.Proper (isName · = true) → AllWritable (c.lexemes spell)
  | ⟨_, condition, thenBody, elseBody⟩, h => by
    have hcondition := allWritable_expr hspell condition h.1
    have hthen := allWritable_inBraces (allWritable_body hspell thenBody h.2.1)
    have helse := allWritable_else hspell elseBody h.2.2
    simp only [Conditional.lexemes, allWritable_cons, allWritable_append, writable_keyword,
      true_and]
    exact ⟨allWritable_enclosed condition hcondition _ _ _, hthen, helse⟩

theorem allWritable_else (hspell : ∀ pos n, Number.IsNumeral (spell pos n).toList) :
    ∀ (elseBody : Option (List Stmt)), bodyProper? (isName · = true) elseBody →
      AllWritable (elseLexemes spell elseBody)
  | none, _ => allWritable_nil
  | some body, h => by
    have hbody := allWritable_body hspell body h
    simp only [elseLexemes, allWritable_cons, writable_keyword, true_and]
    split
    · exact hbody
    · exact allWritable_inBraces hbody

theorem allWritable_target (hspell : ∀ pos n, Number.IsNumeral (spell pos n).toList) :
    ∀ (t : Place), t.Proper (isName · = true) → AllWritable (t.lexemes spell)
  | .name _ name, h => by simpa [Place.lexemes] using writable_nameLexeme h
  | .field _ object name, h => by
    have hobject := allWritable_expr hspell object h.1
    simpa [Place.lexemes] using ⟨allWritable_enclosed object hobject _ _ _, h.2⟩

theorem allWritable_fnDecl (hspell : ∀ pos n, Number.IsNumeral (spell pos n).toList) :
    ∀ (d : FnDecl), d.Proper (isName · = true) → AllWritable (d.lexemes spell)
  | ⟨_, name, receiver, params, ret, body⟩, h => by
    obtain ⟨hname, hparams, hret, hbody⟩ := h
    have hitems : ∀ ls ∈ receiver.toList.map Receiver.lexemes ++ params.map Param.lexemes,
        AllWritable ls := by
      refine List.forall_mem_append.2 ⟨?_, ?_⟩
      · exact List.forall_mem_map.2 fun r _ => allWritable_receiver r
      · exact List.forall_mem_map.2 fun p hp => allWritable_param (hparams p hp)
    have hbody := allWritable_inBraces (allWritable_body hspell body hbody)
    simp only [FnDecl.lexemes, allWritable_cons, allWritable_append, writable_keyword,
      writable_symbol, true_and]
    exact ⟨hname, allWritable_inParens hitems, allWritable_type hret, hbody⟩

theorem allWritable_fnDecls (hspell : ∀ pos n, Number.IsNumeral (spell pos n).toList) :
    ∀ (ds : List FnDecl), fnDeclsProper (isName · = true) ds → AllWritable (fnDeclsLexemes spell ds)
  | [], _ => allWritable_nil
  | d :: rest, h => by
    simpa [fnDeclsLexemes] using
      ⟨allWritable_fnDecl hspell d h.1, allWritable_fnDecls hspell rest h.2⟩

theorem allWritable_stmt (hspell : ∀ pos n, Number.IsNumeral (spell pos n).toList) :
    ∀ (s : Stmt), s.Proper (isName · = true) → AllWritable (s.lexemes spell)
  | .letIn _ name type value, h => by
    obtain ⟨hname, htype, hvalue⟩ := h
    have hvalue := allWritable_expr hspell value hvalue true false
    cases type with
    | none => simpa [Stmt.lexemes] using ⟨hname, hvalue⟩
    | some t => simpa [Stmt.lexemes] using ⟨hname, allWritable_type (htype t rfl), hvalue⟩
  | .assign _ target value, h => by
    have htarget := allWritable_target hspell target h.1
    simpa [Stmt.lexemes] using ⟨htarget, allWritable_expr hspell value h.2 true false⟩
  | .expr _ value terminated, h => by
    have hvalue := allWritable_expr hspell value h
    cases terminated <;> simpa [Stmt.lexemes] using allWritable_enclosed value hvalue _ _ _
  | .conditional c, h => allWritable_choice hspell c h
  | .whileLoop _ condition body, h => by
    have hcondition := allWritable_expr hspell condition h.1
    have hbody := allWritable_inBraces (allWritable_body hspell body h.2)
    simpa [Stmt.lexemes] using ⟨allWritable_enclosed condition hcondition _ _ _, hbody⟩
  | .block _ body, h => allWritable_inBraces (allWritable_body hspell body h)
  | .ret _ none, _ => by simp [Stmt.lexemes]
  | .ret _ (some value), h => by
    simpa [Stmt.lexemes] using allWritable_expr hspell value h true false
  | .structDecl d, h => allWritable_structDecl h
  | .implBlock ⟨_, type, methods⟩, h => by
    have hmethods := allWritable_inBraces (allWritable_fnDecls hspell methods h.2)
    simpa [Stmt.lexemes, ImplBlock.lexemes] using ⟨h.1, hmethods⟩
  | .fnDecl d, h => allWritable_fnDecl hspell d h

/-- The lexemes of statements whose names are proper ones can be written. -/
theorem allWritable_body (hspell : ∀ pos n, Number.IsNumeral (spell pos n).toList) :
    ∀ (body : List Stmt), WellFormed body → AllWritable (bodyLexemes spell body)
  | [], _ => allWritable_nil
  | s :: rest, h => by
    simpa [bodyLexemes] using ⟨allWritable_stmt hspell s h.1, allWritable_body hspell rest h.2.2⟩

end

end Written

/-- Every number has a spelling that is a numeral. -/
theorem Number.isNumeral_spelled (n : Number) : IsNumeral n.spelled.toList := by
  unfold spelled
  split
  · rename_i hfinite
    obtain ⟨numeral, hchars, -⟩ := magnitudeText_numeral (of_decide_eq_true hfinite)
    rw [String.toList_ofList, hchars]
    exact numeral.isNumeral_chars
  · have hchars : "1e999".toList = ['1'] ++ ([] ++ 'e' :: ([] ++ ['9', '9', '9'])) := by decide
    have hwhole : IsDigits ['1'] := ⟨by decide, by decide⟩
    have hpower : IsDigits ['9', '9', '9'] := ⟨by decide, by decide⟩
    rw [hchars]
    exact .mk hwhole .none (.some (.inl rfl) List.mem_cons_self hpower)

theorem Program.ofSource_items {source : String} {limits : Limits} {p : Program}
    (h : Program.ofSource source limits = .ok p) :
    ∃ taken, Goal.program.ofSource source limits = .ok (p.items, taken) := by
  unfold Program.ofSource at h
  cases hread : Goal.program.ofSource source limits with
  | error e =>
    rw [hread] at h
    cases h
  | ok r =>
    rw [hread] at h
    cases h
    exact ⟨r.2, rfl⟩

/-- A text whose lexemes are those of statements that are well-formed is read as these statements,
up to places. -/
theorem Program.ofSource_of_lexemes {source : String} {items : List Stmt}
    (hproper : WellFormed items)
    (h : lexemes? source.toList = some (bodyLexemes (fun _ => Number.spelled) items)) :
    ∃ least, ∀ limits : Limits, least ≤ limits.depth →
      ∃ p, Program.ofSource source limits = .ok p ∧
        p.items.map (unplaced.stmt none) = items.map (unplaced.stmt none) := by
  obtain ⟨hscan, hlexemes⟩ := ofSource_of_lexemes? h
  have hread := ReadsStmts.program (reads_stmts spellsNumerals_spelled none items hproper)
  rw [← hlexemes] at hread
  obtain ⟨least, hleast⟩ := eventually_atTop.1 hread
  refine ⟨least, fun limits hlimits => ?_⟩
  obtain ⟨items', hitems, heq⟩ := parse_placed (hleast _ hlimits) (Scan.ofSource source).stop
  refine ⟨⟨items', Pragma.strictMoves source⟩, ?_, ?_⟩
  · rw [Program.ofSource_of_scan hscan, hitems]
  · exact (heq none).trans (body_eq_map unplaced none items)

/-- What a script is read as is well-formed: an expression without a semicolon is the last of its
body, targets of assignments are names or fields, and names are words that are not reserved, or
`self` and `Self` in their places. Nothing more can be said of it, since all that is well-formed is
read from some text, up to places. -/
theorem Program.ofSource_wellFormed :
    (∀ (source : String) (limits : Limits) (p : Program),
      Program.ofSource source limits = .ok p → WellFormed p.items) ∧
    ∀ items : List Stmt, WellFormed items → ∃ source least, ∀ limits : Limits,
      least ≤ limits.depth → ∃ p, Program.ofSource source limits = .ok p ∧
        p.items.map (unplaced.stmt none) = items.map (unplaced.stmt none) := by
  refine ⟨fun source limits p h => ?_, fun items h => ?_⟩
  · obtain ⟨taken, htaken⟩ := Program.ofSource_items h
    obtain ⟨_, _, hproper⟩ := Goal.given_ofSource htaken
    exact hproper
  · have hwritable := allWritable_body (fun _ => Number.isNumeral_spelled) items h
    refine ⟨Lexeme.stream (bodyLexemes (fun _ => Number.spelled) items), ?_⟩
    refine Program.ofSource_of_lexemes h ?_
    rw [Lexeme.stream, String.toList_intercalate, List.map_map]
    exact lexemes?_stream hwritable

/-- A binding with bodies that end in expressions, an assignment to a field of `self`, a path from
`Self`, and names that only start like reserved words. -/
theorem Program.ofSource_wellFormed_choice :
    let source := "let x = if a \x7b self.if1 = Self::f(A \x7b mut_ \x7d); b \x7d else \x7b c \x7d; p!(x)"
    ∃ p, Program.ofSource source .default = .ok p ∧ WellFormed p.items ∧
      ∃ source' least, ∀ limits : Limits, least ≤ limits.depth →
        ∃ q, Program.ofSource source' limits = .ok q ∧
          q.items.map (unplaced.stmt none) = p.items.map (unplaced.stmt none) := by
  intro source
  have hok : (Program.ofSource source .default).isOk = true := by decide +kernel
  cases hp : Program.ofSource source .default with
  | error e => simp [hp, Except.isOk, Except.toBool] at hok
  | ok p =>
    have hwell := Program.ofSource_wellFormed.1 source .default p hp
    exact ⟨p, rfl, hwell, Program.ofSource_wellFormed.2 p.items hwell⟩

end Rustlet
