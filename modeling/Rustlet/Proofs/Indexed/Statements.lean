import Rustlet.Proofs.Indexed.Parts

/-! Statements and declarations, read by index and from the front of what is left. -/
namespace Rustlet

namespace Indexed

open Grammar (Reader)

variable {ι : Type} {F : Prop} {s : State} {j k r : Nat} {run : ι → Runner} {read : ι → Reader}
  {n : ι → Nat}

theorem tracks_endStmt (hs : F → s.Plain) :
    Tracks F s j (From j) (fun _ : ι => endStmt) fun _ => Grammar.endStmt := by
  refine .bind (tracks_skip hs rfl) fun _ k hk => .ite (fun _ => .pure hk.1) fun _ => ?_
  exact .sees hs rfl (.atEnd (.ite (fun _ => .pure hk.1) fun _ => tracks_fail _ (by nofun)))

theorem tracks_programRule (hs : F → s.Plain ∧ s.literals = true)
    (h : Parts s j Construct.program.rank run read) (hn : ∀ i, s.tokens.length - j < n i) :
    Tracks F s j (fun _ k => s.tokens.length ≤ k) (fun i => programRule (n i) (run i))
      fun i => Grammar.programRule (read i) := by
  have hplain : F → s.Plain := fun hF => (hs hF).1
  refine (tracks_many (S := fun k => s.tokens.length ≤ k) hn fun k hk => ?_).mono
    fun _ m hm => hm.2
  refine .atEnd (.ite (fun hend => .pure ⟨Nat.le_refl k, ?_⟩) fun _ => ?_)
  · rw [List.isEmpty_iff] at hend
    exact List.drop_eq_nil_iff.1 hend
  · refine .bind (tracks_skip hplain rfl) fun semicolon m hm => .ite (fun hseen => ?_) fun _ => ?_
    · exact .pure (hm.2 hseen)
    · refine .bind (h.inherited .stmt hs rfl (.inr ⟨?_, by decide⟩)) fun st m' hm' => .pure ?_
      · exact Nat.le_trans hk hm.1
      · exact Nat.lt_of_le_of_lt hm.1 hm'

theorem tracks_blockRule (hs : F → s.Plain) (h : Parts s j r run read)
    (hn : ∀ i, s.tokens.length - j < n i) :
    Tracks F s j (Past j) (fun i => blockRule (n i) (run i))
      fun i => Grammar.blockRule (read i) := by
  have hs' : F → (s.allow true).Plain := hs
  refine .bind (tracks_expect hs rfl) fun _ k hk => ?_
  refine .bind (tracks_allowing (tracks_many (S := fun _ => True)
    (rounds_left hn (Nat.le_of_lt hk)) fun m hm => ?_)) fun body m hm => ?_
  · refine .sees hs' rfl (.ite (fun _ => .pure ⟨Nat.le_refl m, trivial⟩) fun _ => ?_)
    refine .atEnd (.ite (fun _ => tracks_fail _ (by nofun)) fun _ => ?_)
    refine .bind (tracks_skip hs' rfl) fun semicolon m' hm' => .ite (fun hseen => ?_) fun _ => ?_
    · exact .pure (hm'.2 hseen)
    · refine .bind ((h.allow true).inherited .stmt (fun hF => ⟨hs hF, rfl⟩) rfl (.inl ?_))
        fun st m'' hm'' => .pure ?_
      · omega
      · exact Nat.lt_of_le_of_lt hm'.1 hm''
  · refine .bind (tracks_expect hs rfl) fun _ m' hm' => .pure ?_
    have hkm := hm.1
    omega

theorem tracks_stmtRule (hs : F → s.Plain ∧ s.literals = true)
    (h : Parts s j Construct.stmt.rank run read) :
    Tracks F s j (Past j) (fun i => stmtRule (run i)) fun i => Grammar.stmtRule (read i) := by
  have hplain : F → s.Plain := fun hF => (hs hF).1
  refine .ask sees_seek (.ask sees_seek (.ask sees_seek (.ask sees_seek ?_)))
  refine .iteLeft (fun hdecl => ?_) fun hdecl => ?_
  · have hpart := h.part (F := F) .decl hplain ⟨rfl, rfl⟩ (.inr ⟨Nat.le_refl j, by decide⟩)
    simp only [Bool.or_eq_true] at hdecl
    rcases hdecl with ((hpub | hstruct) | himpl) | hfn
    · exact .seen hplain rfl hpub hpart
    · exact .seen hplain rfl hstruct hpart
    · exact .seen hplain rfl himpl hpart
    · exact .seen hplain rfl hfn hpart
  refine .ask sees_seek (.iteLeft (fun hlet => .seen hplain rfl hlet ?_) fun hlet => ?_)
  · exact h.inherited .letStmt hs rfl (.inr ⟨Nat.le_refl j, by decide⟩)
  refine .ask sees_seek (.iteLeft (fun hif => .seen hplain rfl hif ?_) fun hif => ?_)
  · exact .bind (h.part .conditional hplain ⟨rfl, rfl⟩ (.inr ⟨Nat.le_refl j, by decide⟩))
      fun c k hk => .pure hk
  refine .ask sees_seek (.iteLeft (fun hwhile => .seen hplain rfl hwhile ?_) fun hwhile => ?_)
  · exact h.part .whileStmt hplain ⟨rfl, rfl⟩ (.inr ⟨Nat.le_refl j, by decide⟩)
  refine .ask sees_seek (.iteLeft (fun hreturn => .seen hplain rfl hreturn ?_) fun hreturn => ?_)
  · exact h.inherited .returnStmt hs rfl (.inr ⟨Nat.le_refl j, by decide⟩)
  refine .ask sees_seek (.iteLeft (fun hbrace => .seen hplain rfl hbrace ?_) fun hbrace => ?_)
  · exact .here (.bind (h.part .block hplain ⟨rfl, rfl⟩ (.inr ⟨Nat.le_refl j, by decide⟩))
      fun body k hk => .pure hk)
  refine .look ((h.inherited .exprStmt hs rfl (.inr ⟨Nat.le_refl j, by decide⟩)).congr
    fun hF => ⟨hF, fun i => ?_⟩)
  simp only [Bool.or_eq_true, not_or] at hdecl
  obtain ⟨⟨⟨hpub, hstruct⟩, himpl⟩, hfn⟩ := hdecl
  have hne : ∀ {l : Lexeme}, l.isFixed = true → ¬ s.shows j l = true →
      (s.cursor j).lexeme? 0 ≠ some l :=
    State.lexeme?_ne (hplain hF)
  cases hl : (s.cursor j).lexeme? 0 with
  | none => rfl
  | some l =>
    cases l with
    | keyword word => cases word <;> first | rfl | exact absurd hl (hne rfl (by assumption))
    | symbol mark => cases mark <;> first | rfl | exact absurd hl (hne rfl (by assumption))
    | _ => rfl

theorem tracks_letRule (hs : F → s.Plain ∧ s.literals = true) (h : Parts s j r run read) :
    Tracks F s j (Past j) (fun i => letRule (run i)) fun i => Grammar.letRule (read i) := by
  have hplain : F → s.Plain := fun hF => (hs hF).1
  refine .here (.bind (tracks_expect hplain rfl) fun _ k₁ hk₁ => ?_)
  refine .bind (tracks_skip hplain rfl) fun _ k₂ hk₂ => ?_
  refine .bind tracks_ident fun name k₃ hk₃ => ?_
  refine .bind (tracks_skip hplain rfl) fun hasType k₄ hk₄ => ?_
  have hlt : j < k₄ := by omega
  refine .join (Q := From k₄) (fun _ => ?_) (fun _ => .pure (Nat.le_refl k₄)) fun type k₅ hk₅ => ?_
  · exact (h.part .type hplain ⟨rfl, rfl⟩ (.inl hlt)).map _ fun _ _ hk => Nat.le_of_lt hk
  · refine .bind (tracks_expect hplain rfl) fun _ k₆ hk₆ => ?_
    refine .bind (h.inherited .expr hs rfl (.inl (by omega))) fun value k₇ hk₇ => ?_
    exact .bind (tracks_expect hplain rfl) fun _ k₈ hk₈ => .pure (by omega)

theorem tracks_elseBranch (hs : F → s.Plain) (h : Parts s j r run read) (hk : j < k) :
    Tracks F s k (From k) (fun i => elseBranch (run i)) fun i => Grammar.elseBranch (read i) := by
  refine .bind (tracks_skip hs rfl) fun _ m hm => .ite (fun _ => ?_) fun _ => .pure hm.1
  have hlt : j < m := Nat.lt_of_lt_of_le hk hm.1
  refine .sees hs rfl (.ite (fun _ => ?_) fun _ => ?_)
  · refine .bind (h.part .conditional hs ⟨rfl, rfl⟩ (.inl hlt)) fun c m' hm' => .pure ?_
    exact Nat.le_trans hm.1 (Nat.le_of_lt hm')
  · refine .bind (h.part .block hs ⟨rfl, rfl⟩ (.inl hlt)) fun body m' hm' => .pure ?_
    exact Nat.le_trans hm.1 (Nat.le_of_lt hm')

/-- A condition, in which no struct literal is allowed. -/
theorem Parts.condition (h : Parts s j r run read) (hs : F → s.Plain) (hk : j < k) :
    Tracks F s k (Past k) (fun i => allowing false (run i .expr)) fun i => read i (.expr false) :=
  tracks_allowing ((h.allow false).part .expr hs ⟨rfl, rfl⟩ (.inl hk))

theorem tracks_conditionalRule (hs : F → s.Plain) (h : Parts s j r run read) :
    Tracks F s j (Past j) (fun i => conditionalRule (run i))
      fun i => Grammar.conditionalRule (read i) := by
  refine .here (.bind (tracks_expect hs rfl) fun _ k₁ hk₁ => ?_)
  refine .bind (h.condition hs hk₁) fun condition k₂ hk₂ => ?_
  refine .bind (h.part .block hs ⟨rfl, rfl⟩ (.inl (Nat.lt_trans hk₁ hk₂))) fun body k₃ hk₃ => ?_
  have hlt : j < k₃ := Nat.lt_trans hk₁ (Nat.lt_trans hk₂ hk₃)
  exact .bind (tracks_elseBranch hs h hlt) fun _ k₄ hk₄ => .pure (Nat.lt_of_lt_of_le hlt hk₄)

theorem tracks_whileRule (hs : F → s.Plain) (h : Parts s j r run read) :
    Tracks F s j (Past j) (fun i => whileRule (run i)) fun i => Grammar.whileRule (read i) := by
  refine .here (.bind (tracks_expect hs rfl) fun _ k₁ hk₁ => ?_)
  refine .bind (h.condition hs hk₁) fun condition k₂ hk₂ => ?_
  have hlt : j < k₂ := Nat.lt_trans hk₁ hk₂
  exact .bind (h.part .block hs ⟨rfl, rfl⟩ (.inl hlt)) fun body k₃ hk₃ =>
    .pure (Nat.lt_trans hlt hk₃)

theorem tracks_returnRule (hs : F → s.Plain ∧ s.literals = true) (h : Parts s j r run read) :
    Tracks F s j (Past j) (fun i => returnRule (run i)) fun i => Grammar.returnRule (read i) := by
  have hplain : F → s.Plain := fun hF => (hs hF).1
  refine .here (.bind (tracks_expect hplain rfl) fun _ k hk => ?_)
  refine .sees hplain rfl (.sees hplain rfl ?_)
  refine .join (Q := From k) (fun _ => .pure (Nat.le_refl k)) (fun _ => ?_) fun value m hm => ?_
  · exact (h.inherited .expr hs rfl (.inl hk)).map _ fun _ _ hk => Nat.le_of_lt hk
  · refine .bind (tracks_endStmt hplain) fun _ m' hm' => .pure ?_
    exact Nat.lt_of_lt_of_le hk (Nat.le_trans hm hm')

theorem tracks_exprStmtRule (hs : F → s.Plain ∧ s.literals = true)
    (h : Parts s j Construct.exprStmt.rank run read) :
    Tracks F s j (Past j) (fun i => exprStmtRule (run i))
      fun i => Grammar.exprStmtRule (read i) := by
  have hplain : F → s.Plain := fun hF => (hs hF).1
  refine .here (.bind (h.inherited .expr hs rfl (.inr ⟨Nat.le_refl j, by decide⟩)) fun e k hk => ?_)
  refine .sees hplain rfl (.ite (fun _ => ?_) fun _ => ?_)
  · cases Grammar.place? e with
    | none => exact tracks_throw (by nofun)
    | some target =>
      refine .bind tracks_advance fun _ k₁ hk₁ => ?_
      have hlt : j < k₁ := Nat.lt_of_lt_of_le hk hk₁.1
      refine .bind (h.inherited .expr hs rfl (.inl hlt)) fun value k₂ hk₂ => ?_
      refine .bind (tracks_endStmt hplain) fun _ k₃ hk₃ => .pure ?_
      exact Nat.lt_trans hlt (Nat.lt_of_lt_of_le hk₂ hk₃)
  · exact .bind (tracks_endStmt hplain) fun _ k₁ hk₁ => .pure (Nat.lt_of_lt_of_le hk hk₁)

theorem tracks_declRule (hs : F → s.Plain) (h : Parts s j Construct.decl.rank run read) :
    Tracks F s j (Past j) (fun i => declRule (run i)) fun i => Grammar.declRule (read i) := by
  refine .bind (tracks_skip hs rfl) fun _ k hk => ?_
  have hpast : ∀ {α : Type} (a : α) m, k < m → Past j a m :=
    fun a m hm => Nat.lt_of_le_of_lt hk.1 hm
  refine .ask sees_seek (.iteLeft (fun hstruct => .seen hs rfl hstruct ?_) fun hstruct => ?_)
  · exact (h.part .structDecl hs ⟨rfl, rfl⟩ (.inr ⟨hk.1, by decide⟩)).map _ fun a => hpast _
  refine .ask sees_seek (.iteLeft (fun himpl => .seen hs rfl himpl ?_) fun himpl => ?_)
  · exact (h.part .implBlock hs ⟨rfl, rfl⟩ (.inr ⟨hk.1, by decide⟩)).map _ fun a => hpast _
  refine .ask sees_seek (.iteLeft (fun hfn => .seen hs rfl hfn ?_) fun hfn => ?_)
  · exact (h.part .fnDecl hs ⟨rfl, rfl⟩ (.inr ⟨hk.1, by decide⟩)).map _ fun a => hpast _
  refine .look ((tracks_fail .declaration nofun).congr fun hF => ⟨hF, fun i => ?_⟩)
  have hne : ∀ {l : Lexeme}, l.isFixed = true → ¬ s.shows k l = true →
      (s.cursor k).lexeme? 0 ≠ some l :=
    State.lexeme?_ne (hs hF)
  cases hl : (s.cursor k).lexeme? 0 with
  | none => rfl
  | some l =>
    cases l with
    | keyword word => cases word <;> first | rfl | exact absurd hl (hne rfl (by assumption))
    | _ => rfl

theorem tracks_fieldDecl (hs : F → s.Plain) (h : Parts s j r run read) (hk : j < k) :
    Tracks F s k (Past k) (fun i => fieldDecl (run i)) fun i => Grammar.fieldDecl (read i) := by
  refine .bind (tracks_skip hs rfl) fun _ k₁ hk₁ => .here ?_
  refine .bind tracks_ident fun name k₂ hk₂ => ?_
  refine .bind (tracks_expect hs rfl) fun _ k₃ hk₃ => ?_
  refine .bind (h.part .type hs ⟨rfl, rfl⟩ (.inl ?_)) fun type k₄ hk₄ => .pure ?_
  · omega
  · omega

theorem tracks_structDeclRule (hs : F → s.Plain) (h : Parts s j r run read)
    (hn : ∀ i, s.tokens.length - j < n i) :
    Tracks F s j (Past j) (fun i => structDeclRule (n i) (run i))
      fun i => Grammar.structDeclRule (read i) := by
  refine .here (.bind (tracks_expect hs rfl) fun _ k₁ hk₁ => ?_)
  refine .bind tracks_ident fun name k₂ hk₂ => ?_
  refine .bind (tracks_skip hs rfl) fun _ k₃ hk₃ => .ite (fun _ => .pure ?_) fun _ => ?_
  · omega
  · refine .bind (tracks_expect hs rfl) fun _ k₄ hk₄ => ?_
    have hlt : j < k₄ := by omega
    refine .bind (tracks_listUntil hs (rounds_left hn (Nat.le_of_lt hlt)) _ fun m hm => ?_)
      fun fields k₅ hk₅ => ?_
    · exact tracks_fieldDecl hs h (Nat.lt_of_lt_of_le hlt hm)
    · exact .bind (tracks_expect hs rfl) fun _ k₆ hk₆ => .pure (by omega)

theorem tracks_implBlockRule (hs : F → s.Plain) (h : Parts s j r run read)
    (hn : ∀ i, s.tokens.length - j < n i) :
    Tracks F s j (Past j) (fun i => implBlockRule (n i) (run i))
      fun i => Grammar.implBlockRule (read i) := by
  refine .here (.bind (tracks_expect hs rfl) fun _ k₁ hk₁ => ?_)
  refine .bind tracks_ident fun type k₂ hk₂ => ?_
  refine .bind (tracks_expect hs rfl) fun _ k₃ hk₃ => ?_
  have hlt : j < k₃ := by omega
  refine .bind (tracks_many (S := fun _ => True) (rounds_left hn (Nat.le_of_lt hlt)) fun m hm => ?_)
    fun methods k₄ hk₄ => ?_
  · refine .sees hs rfl (.ite (fun _ => .pure ⟨Nat.le_refl m, trivial⟩) fun _ => ?_)
    refine .bind (tracks_skip hs rfl) fun _ m₁ hm₁ => ?_
    refine .bind (h.part .fnDecl hs ⟨rfl, rfl⟩ (.inl ?_)) fun decl m₂ hm₂ => .pure ?_
    · omega
    · exact Nat.lt_of_le_of_lt hm₁.1 hm₂
  · refine .bind (tracks_expect hs rfl) fun _ k₅ hk₅ => .pure ?_
    have hle := hk₄.1
    omega

theorem tracks_receiverRule (hs : F → s.Plain) :
    Tracks F s j (From j) (fun _ : ι => receiverRule) fun _ => Grammar.receiverRule := by
  refine .bind (tracks_skip hs rfl) fun _ k hk => .ite (fun _ => .pure hk.1) fun _ => ?_
  refine .sees hs rfl (.spells (.ite (fun _ => ?_) fun _ => ?_))
  · refine .bind tracks_advance fun _ k₁ hk₁ => .bind tracks_advance fun _ k₂ hk₂ => .pure ?_
    omega
  · refine .sees hs rfl (.spells (.spells (.ite (fun _ => ?_) fun _ => .pure hk.1)))
    refine .bind tracks_advance fun _ k₁ hk₁ => .bind tracks_advance fun _ k₂ hk₂ => ?_
    exact .bind tracks_advance fun _ k₃ hk₃ => .pure (by omega)

theorem tracks_paramRule (hs : F → s.Plain) (h : Parts s j r run read) :
    Tracks F s j (Past j) (fun i => paramRule (run i)) fun i => Grammar.paramRule (read i) := by
  refine .here (.bind (tracks_skip hs rfl) fun _ k₁ hk₁ => ?_)
  refine .bind tracks_ident fun name k₂ hk₂ => ?_
  refine .bind (tracks_expect hs rfl) fun _ k₃ hk₃ => ?_
  refine .bind (h.part .type hs ⟨rfl, rfl⟩ (.inl ?_)) fun type k₄ hk₄ => .pure ?_
  · omega
  · omega

theorem tracks_fnDeclRule (hs : F → s.Plain) (h : Parts s j r run read)
    (hn : ∀ i, s.tokens.length - j < n i) :
    Tracks F s j (Past j) (fun i => fnDeclRule (n i) (run i))
      fun i => Grammar.fnDeclRule (read i) := by
  refine .here (.bind (tracks_expect hs rfl) fun _ k₁ hk₁ => ?_)
  refine .bind tracks_ident fun name k₂ hk₂ => ?_
  refine .bind (tracks_expect hs rfl) fun _ k₃ hk₃ => ?_
  refine .bind (Q := From k₃) ?_ fun receiver k₄ hk₄ => .sees hs rfl ?_
  · have hreceiver := h _ .receiver s.literals k₃ (.inl (by omega))
    refine hreceiver.congr fun hF => ⟨⟨hs hF, fun hinherits => ?_⟩, fun _ => rfl⟩
    cases hinherits
  have hlt : j < k₄ := by omega
  refine .joinUnit (Q := From k₄) (fun _ => ?_) (fun _ => Nat.le_refl k₄) fun k₅ hk₅ => ?_
  · exact (tracks_expect hs rfl).mono fun _ _ hk => Nat.le_of_lt hk
  have hle : j ≤ k₅ := by omega
  refine .bind (tracks_listUntil hs (rounds_left hn hle) _ fun m hm => ?_) fun params k₆ hk₆ => ?_
  · exact h.part .param hs ⟨rfl, rfl⟩ (.inl (by omega))
  refine .bind (tracks_expect hs rfl) fun _ k₇ hk₇ => ?_
  refine .bind (tracks_skip hs rfl) fun hasRet k₈ hk₈ => ?_
  refine .join (Q := From k₈) (fun _ => ?_) (fun _ => .pure (Nat.le_refl k₈)) fun ret k₉ hk₉ => ?_
  · refine (h.part .type hs ⟨rfl, rfl⟩ (.inl ?_)).mono fun _ _ hk => Nat.le_of_lt hk
    omega
  · refine .bind (h.part .block hs ⟨rfl, rfl⟩ (.inl ?_)) fun body k hk => .pure ?_
    · omega
    · omega

end Indexed

end Rustlet
