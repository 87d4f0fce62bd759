import Rustlet.Proofs.Indexed.Expressions
import Rustlet.Proofs.Indexed.Statements
import Rustlet.Proofs.Parallel.Rules
import Rustlet.Proofs.Tiling

/-! How reading by index ends. -/
namespace Rustlet

namespace Indexed

open Grammar (Reader)

variable {ι α : Type} {s : State} {j : Nat} {run : ι → Runner} {read : ι → Reader}

/-- One step: if the parts of a construct are read well, so is the construct. -/
theorem tracks_rule (hnumerals : s.Numerals) (m : Construct α) {n : ι → Nat}
    (hn : ∀ i, s.tokens.length - j < n i) (h : Parts s j m.rank run read) :
    Tracks (m.Told s) s j (fun _ k => m.reach s.tokens.length j ≤ k)
      (fun i => m.rule (n i) (run i)) fun i => (m.goal s.literals).rule (read i) := by
  have hs : m.Told s → s.Plain := fun htold => htold.1
  have hliterals : m.inherits = true → m.Told s → s.Plain ∧ s.literals = true :=
    fun hm htold => ⟨htold.1, htold.2 hm⟩
  have hoperand : ∀ part : Construct Expr, part.inherits = false ∧
      (∀ k, part.reach s.tokens.length k = k + 1) → part.rank < m.rank → ∀ k, j ≤ k →
      Tracks (m.Told s) s k (Past k) (fun i => run i part) fun i => read i (part.goal s.literals) :=
    fun part hpart hrank k hk => h.part part hs ⟨hpart.1, hpart.2 k⟩ (.inr ⟨hk, hrank⟩)
  obtain ⟨hor, hand, hsum, hproduct⟩ := lists_joins
  cases m with
  | program => exact tracks_programRule (hliterals rfl) h hn
  | stmt => exact tracks_stmtRule (hliterals rfl) h
  | block => exact tracks_blockRule hs h hn
  | decl => exact tracks_declRule hs h
  | structDecl => exact tracks_structDeclRule hs h hn
  | implBlock => exact tracks_implBlockRule hs h hn
  | fnDecl => exact tracks_fnDeclRule hs h hn
  | receiver => exact tracks_receiverRule hs
  | param => exact tracks_paramRule hs h
  | type => exact tracks_typeRule hs h
  | letStmt => exact tracks_letRule (hliterals rfl) h
  | conditional => exact tracks_conditionalRule hs h
  | whileStmt => exact tracks_whileRule hs h
  | returnStmt => exact tracks_returnRule (hliterals rfl) h
  | exprStmt => exact tracks_exprStmtRule (hliterals rfl) h
  | expr => exact hoperand .disjunction ⟨rfl, fun _ => rfl⟩ (by decide) j (Nat.le_refl j)
  | disjunction =>
    exact tracks_leftJoined hs hn hor (hoperand .conjunction ⟨rfl, fun _ => rfl⟩ (by decide))
  | conjunction =>
    exact tracks_leftJoined hs hn hand (hoperand .comparison ⟨rfl, fun _ => rfl⟩ (by decide))
  | comparison => exact tracks_comparisonRule hs h
  | sum =>
    exact tracks_leftJoined hs hn hsum (hoperand .product ⟨rfl, fun _ => rfl⟩ (by decide))
  | product =>
    exact tracks_leftJoined hs hn hproduct (hoperand .unary ⟨rfl, fun _ => rfl⟩ (by decide))
  | unary => exact tracks_unaryRule hs h
  | postfixed => exact tracks_postfixedRule hs h hn
  | primary => exact tracks_primaryRule hnumerals hs h
  | args => exact tracks_argsRule hs h hn
  | structLit type => exact tracks_structLitRule (hliterals rfl) h hn type

theorem Construct.rank_pos (m : Construct α) : 0 < m.rank := by
  cases m with
  | structLit type => exact Nat.one_pos
  | _ => decide

theorem Construct.rank_le (m : Construct α) : m.rank ≤ 13 := by
  cases m with
  | structLit type => exact Nat.le_add_left 1 12
  | _ => decide

/-- All steps: a part that is read later has a token less in front of it, which outweighs its rank,
and a part that is read at the same index has a lower rank. -/
theorem tracks_drive (hnumerals : s.Numerals) (bound : Nat) (m : Construct α) (depth n : ι → Nat)
    (hbound : 13 * (s.tokens.length - j) + m.rank ≤ bound) (hdepth : ∀ i, bound ≤ depth i)
    (hn : ∀ i, s.tokens.length - j < n i) :
    Tracks (m.Told s) s j (fun _ k => m.reach s.tokens.length j ≤ k)
      (fun i => drive (n i) (depth i) m) fun i => Grammar.parse (depth i) (m.goal s.literals) := by
  induction bound generalizing s α m j depth with
  | zero =>
    have hpos := m.rank_pos
    omega
  | succ bound ih =>
    obtain ⟨depth, rfl⟩ : ∃ d : ι → Nat, depth = fun i => d i + 1 := exists_succ hdepth
    refine tracks_rule hnumerals m hn fun β part literals k hk => ⟨fun hend => ?_⟩
    have hlast : k ≤ s.tokens.length := hend
    have hle := part.rank_le
    have hpos := m.rank_pos
    refine (ih (s := s.allow literals) hnumerals part depth ?_ ?_ ?_).outcome hend
    · change 13 * (s.tokens.length - k) + part.rank ≤ bound
      omega
    · exact fun i => Nat.le_of_succ_le_succ (hdepth i)
    · exact rounds_left hn (by omega)

namespace State

/-- As much depth as the tokens that are left can need. -/
def depth (s : State) : Nat := 13 * (s.tokens.length - s.index + 1)

/-- As many rounds as the tokens that are left can need. -/
def rounds (s : State) : Nat := s.tokens.length - s.index + 1

/-- What a construct comes to if it is read from the front of what is left. -/
def front (s : State) (m : Construct α) (depth : Nat) : Except ParseError (α × Cursor) :=
  Grammar.parse depth (m.goal s.literals) (s.cursor s.index)

/-- Less depth than is needed changes nothing, or is found too little. -/
theorem front_of_depth {m : Construct α} {result : Except ParseError (α × Cursor)}
    (h : ∀ depth, s.depth ≤ depth → s.front m depth = result) (depth : Nat) :
    s.front m depth = result ∨
      depth < s.depth ∧ ∃ e, s.front m depth = .error e ∧ e.TooDeep := by
  rcases Nat.lt_or_ge depth s.depth with hlt | hge
  · rcases Grammar.parse_deeper (Nat.le_of_lt hlt) (m.goal s.literals) (s.cursor s.index)
      with hdeep | hsame
    · exact .inr ⟨hlt, hdeep⟩
    · exact .inl (hsame.symm.trans (h s.depth (Nat.le_refl _)))
  · exact .inl (h depth hge)

end State

section Scanned

/-- A word or a mark of the language does not start with a digit. -/
theorem ne_spelling_of_isNumeral {numeral : String} (h : Number.IsNumeral numeral.toList)
    {l : Lexeme} (hl : l.isFixed = true) : numeral ≠ l.spelling := by
  rintro rfl
  obtain ⟨d, ds, hcons, hd⟩ := h.exists_cons
  have hhead : l.spelling.toList.head? = some d := by rw [hcons, List.head?_cons]
  cases l with
  | keyword k => cases k <;> cases hhead <;> cases hd
  | symbol m =>
    rw [Lexeme.spelling, Symbol.text, String.toList_ofList] at hhead
    cases m <;> cases hhead <;> cases hd
  | _ => cases hl

/-- What a whole piece says is not mistaken for something else. -/
theorem plain_of_whole {p : Piece} {following : List Char} {l : Lexeme} (hp : p.Whole following)
    (hl : p.Says (some l)) :
    l.Plain ∧ ∀ numeral, l = .number numeral → Number.IsNumeral numeral.toList := by
  cases hl with
  | number numeral =>
    have hnumeral : Number.IsNumeral numeral.toList := hp.1
    refine ⟨⟨fun k => ?_, fun m => ?_⟩, ?_⟩
    · exact ne_spelling_of_isNumeral hnumeral (l := .keyword k) rfl
    · exact ne_spelling_of_isNumeral hnumeral (l := .symbol m) rfl
    · rintro _ ⟨⟩
      exact hnumeral
  | ident hname =>
    refine ⟨⟨fun k h => hname k h.symm, ?_⟩, fun _ h => by cases h⟩
    rintro m rfl
    have hword : Scan.isWord m.text.toList = true := hp.1
    rw [m.isWord_text] at hword
    cases hword
  | text h => exact ⟨trivial, fun _ h => by cases h⟩
  | keyword k => exact ⟨trivial, fun _ h => by cases h⟩
  | symbol m => exact ⟨trivial, fun _ h => by cases h⟩

/-- The tokens of a source that can be read to its end are not mistaken for others. -/
theorem plain_ofSource {source : String} (h : (Scan.ofSource source).error? = none)
    (index : Nat) (literals : Bool) :
    let s : State := ⟨(Scan.ofSource source).tokens, (Scan.ofSource source).stop, index, literals⟩
    s.Plain ∧ s.Numerals := by
  have hplain := Scan.forall_tokens plain_of_whole h
  exact ⟨fun t ht => (hplain t ht).1, fun t ht => (hplain t ht).2⟩

end Scanned

/-- Reading a construct from an index on, with limits that are large enough for the tokens that are
left, ends in an error of the tokens, which is not that they are nested too deep, or in a result,
and it ends alike with all such limits. If there is a result, the index is within the tokens and has
gone on, for a script to the end, and nothing else of the state has changed. Provided that no
identifier is written like a word or a mark of the language, and that struct literals are allowed
where the goal takes this for granted, what is left is read alike from its front, or not given
enough depth. -/
theorem drive_outcome {s : State} (hnumerals : s.Numerals) (hindex : s.index ≤ s.tokens.length)
    {α : Type} (m : Construct α) :
    (∃ e : ParseError, ¬ e.TooDeep ∧
      (∀ depth rounds, s.depth ≤ depth → s.rounds ≤ rounds →
        drive rounds depth m s = .error (.refused e)) ∧
      (m.Told s → ∀ depth, s.front m depth = .error e ∨
        depth < s.depth ∧ ∃ e', s.front m depth = .error e' ∧ e'.TooDeep)) ∨
    ∃ a k, m.reach s.tokens.length s.index ≤ k ∧ k ≤ s.tokens.length ∧
      (∀ depth rounds, s.depth ≤ depth → s.rounds ≤ rounds →
        drive rounds depth m s = .ok (a, { s with index := k })) ∧
      (m.Told s → ∀ depth, s.front m depth = .ok (a, s.cursor k) ∨
        depth < s.depth ∧ ∃ e', s.front m depth = .error e' ∧ e'.TooDeep) := by
  -- The limits that are large enough.
  let Limit := { limit : Nat × Nat // s.depth ≤ limit.1 ∧ s.rounds ≤ limit.2 }
  have hbound : 13 * (s.tokens.length - s.index) + m.rank ≤ s.depth := by
    have hrank := m.rank_le
    unfold State.depth
    omega
  have hdrive := tracks_drive hnumerals s.depth m (fun limit : Limit => limit.1.1)
    (fun limit => limit.1.2) hbound (fun limit => limit.2.1) fun limit => limit.2.2
  rcases hdrive.outcome hindex with ⟨e, he, hends⟩ | ⟨a, k, hk, hreach, hends⟩
  · refine .inl ⟨e, he, fun depth rounds hdepth hrounds => ?_, fun htold => ?_⟩
    · exact (hends ⟨(depth, rounds), hdepth, hrounds⟩).1
    · refine State.front_of_depth fun depth hdepth => ?_
      exact (hends ⟨(depth, s.rounds), hdepth, Nat.le_refl _⟩).2 htold
  · refine .inr ⟨a, k, hreach, hk, fun depth rounds hdepth hrounds => ?_, fun htold => ?_⟩
    · exact (hends ⟨(depth, rounds), hdepth, hrounds⟩).1
    · refine State.front_of_depth fun depth hdepth => ?_
      exact (hends ⟨(depth, s.rounds), hdepth, Nat.le_refl _⟩).2 htold

/-- The condition of a loop ends in front of the brace, and struct literals are still not allowed
after it. -/
theorem drive_outcome_condition :
    let scan := Scan.ofSource "while a \x7b b: 1.5 \x7d"
    let s : State := ⟨scan.tokens, scan.stop, 1, false⟩
    s.Numerals ∧ s.index ≤ s.tokens.length ∧ Construct.expr.Told s ∧
      ∃ a, (∀ depth rounds, s.depth ≤ depth → s.rounds ≤ rounds →
          drive rounds depth .expr s = .ok (a, { s with index := 2 })) ∧
        ∀ depth, s.front .expr depth = .ok (a, s.cursor 2) ∨
          depth < s.depth ∧ ∃ e, s.front .expr depth = .error e ∧ e.TooDeep := by
  intro scan s
  obtain ⟨hplain, hnumerals⟩ : s.Plain ∧ s.Numerals := plain_ofSource (by decide +kernel) 1 false
  have hindex : s.index ≤ s.tokens.length := by decide +kernel
  have htold : Construct.expr.Told s := ⟨hplain, fun h => by cases h⟩
  have hend : (drive s.rounds s.depth .expr s).toOption.map (·.2.index) = some 2 := by
    decide +kernel
  refine ⟨hnumerals, hindex, htold, ?_⟩
  rcases drive_outcome hnumerals hindex .expr with ⟨e, -, hfail, -⟩ | ⟨a, k, -, -, hgive, hfront⟩
  · rw [hfail _ _ (Nat.le_refl _) (Nat.le_refl _)] at hend
    cases hend
  · rw [hgive _ _ (Nat.le_refl _) (Nat.le_refl _)] at hend
    obtain rfl := Option.some.inj hend
    exact ⟨a, hgive, hfront htold⟩

end Indexed

end Rustlet
