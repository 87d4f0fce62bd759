import Rustlet.Proofs.Registration

/-! What is done to a registry in place, one thing after the other, failures included. -/
namespace Rustlet

namespace Table

variable {α : Type}

/-- A name that has just been given a value. -/
theorem modify_insert (t : Table α) (name : String) (v : α) (f : α → α) :
    (t.insert name v).modify name f = t.insert name (f v) := by
  obtain ⟨es⟩ := t
  simp only [insert, modify, mk.injEq]
  induction es with
  | nil => simp [put, change]
  | cons e rest ih =>
    obtain ⟨k, w⟩ := e
    by_cases hk : k = name
    · simp [put, change, hk]
    · simp [put, change, hk, ih]

theorem modify_of_get? {t : Table α} {name : String} {v : α} (h : t.get? name = some v)
    (f : α → α) : t.modify name f = t.insert name (f v) := by
  obtain ⟨es⟩ := t
  simp only [insert, modify, mk.injEq]
  induction es with
  | nil => cases h
  | cons e rest ih =>
    obtain ⟨k, w⟩ := e
    by_cases hk : k = name
    · obtain rfl : w = v := by simpa [get?, find, hk] using h
      simp [put, change, hk]
    · simp only [put, change, hk, if_false, List.cons.injEq, true_and]
      exact ih (by simpa [get?, find, hk] using h)

end Table

/-- What is done to a registry. -/
inductive Operation
  | enter (d : Declaration)
  | freeze

namespace Registry

/-- Does something to a registry. -/
def operate (r : Registry) : Operation → Except RuntimeError Registry
  | .enter d => r.add d
  | .freeze => r.freeze

/-- How a change in place fails: with an error, or because there is no method to blame. -/
inductive Failure
  | error (e : RuntimeError)
  | nothingToBlame
deriving DecidableEq

/-- Makes room for the methods of a struct. -/
def openTable (r : Registry) (owner : String) : Registry :=
  if r.methods.contains owner then r else { r with methods := r.methods.insert owner .empty }

/-- Enters a declaration in place. What has been changed before a failure stays changed. -/
def enterInPlace (r : Registry) (d : Declaration) : Registry × Option Failure :=
  if r.frozen then (r, some (.error ⟨.frozenRegistry, none⟩))
  else match d with
    | .struct d =>
      if r.structs.contains d.name then (r, some (.error ⟨.duplicateStruct d.name, d.pos⟩))
      else ({ r with structs := r.structs.insert d.name d }, none)
    | .method m =>
      let opened := r.openTable m.owner
      if (opened.methodsOf m.owner).contains m.decl.name then
        (opened, some (.error ⟨.duplicateMethod m.owner m.decl.name, m.pos⟩))
      else ({ opened with methods := opened.methods.modify m.owner (·.insert m.decl.name m) }, none)

/-- Goes through the methods struct by struct, up to a struct that is missing. -/
def orphan? (r : Registry) : List (String × Table MethodDef) → Option Failure
  | [] => none
  | (owner, methods) :: rest =>
    if r.structs.contains owner then r.orphan? rest
    else match methods.entries with
      | [] => some .nothingToBlame
      | (_, first) :: _ => some (.error ⟨.orphanImpl owner, first.pos⟩)

/-- Does something to a registry in place. -/
def inPlace (r : Registry) : Operation → Registry × Option Failure
  | .enter d => r.enterInPlace d
  | .freeze =>
    match r.orphan? r.methods.entries with
    | some failure => (r, some failure)
    | none => ({ r with frozen := true }, none)

/-- The registry after some operations in place, some of which may have failed. -/
def history (r : Registry) (ops : List Operation) : Registry :=
  ops.foldl (fun r op => (r.inPlace op).1) r

/-- The end of a change that leaves the registry alone if it fails. -/
def settled (r : Registry) : Except RuntimeError Registry → Registry × Option Failure
  | .ok r' => (r', none)
  | .error e => (r, some (.error e))

/-- Whether something has been entered under the name of a declaration. -/
def taken (r : Registry) : Declaration → Bool
  | .struct d => r.structs.contains d.name
  | .method m => (r.methodsOf m.owner).contains m.decl.name

/-- A declaration is found under its name. -/
def Finds (r : Registry) : Declaration → Prop
  | .struct d => r.structs.get? d.name = some d
  | .method m => (r.methodsOf m.owner).get? m.decl.name = some m

/-- Every struct with methods has at least one, and it is declared once the registry is frozen. -/
structure Sound (r : Registry) : Prop where
  filled : ∀ e ∈ r.methods.entries, e.2.entries ≠ []
  owned : r.frozen = true → ∀ owner, r.methods.contains owner = true →
    r.structs.contains owner = true

variable {r r' : Registry} {op : Operation}

section InPlace

theorem methodsOf_openTable (r : Registry) (owner : String) :
    (r.openTable owner).methodsOf owner = r.methodsOf owner := by
  unfold openTable
  split
  · rfl
  · rename_i hnew
    have hnone : r.methods.get? owner = none := by simpa [Table.contains] using hnew
    rw [methodsOf_insert, if_pos rfl, methodsOf, hnone]
    rfl

/-- A method that is there already has a table, for which no room is made. -/
theorem openTable_of_contains {owner name : String}
    (h : (r.methodsOf owner).contains name = true) : r.openTable owner = r := by
  unfold openTable
  split
  · rfl
  · rename_i hnew
    have hnone : r.methods.get? owner = none := by simpa [Table.contains] using hnew
    simp [methodsOf, hnone, Table.contains] at h

/-- Making room and entering a method there is entering it at once. -/
theorem openTable_modify (r : Registry) (owner : String) (f : Table MethodDef → Table MethodDef) :
    { r.openTable owner with methods := (r.openTable owner).methods.modify owner f } =
      { r with methods := r.methods.insert owner (f (r.methodsOf owner)) } := by
  unfold openTable methodsOf Table.contains
  cases h : r.methods.get? owner with
  | none => simp [Table.modify_insert]
  | some t => simp [Table.modify_of_get? h]

theorem enterInPlace_eq (r : Registry) (d : Declaration) :
    r.enterInPlace d = r.settled (r.add d) := by
  cases d with
  | struct d =>
    simp only [enterInPlace, add, addStruct]
    split
    · rfl
    · split <;> rfl
  | method m =>
    simp only [enterInPlace, add, addMethod, methodsOf_openTable]
    split
    · rfl
    · split
      · rename_i hdup
        rw [openTable_of_contains hdup]
        rfl
      · rw [openTable_modify]
        rfl

/-- With a method for every struct that has a table, the struct to blame is the first that is
missing. -/
theorem orphan?_eq {es : List (String × Table MethodDef)} (h : ∀ e ∈ es, e.2.entries ≠ []) :
    r.orphan? es = (es.find? fun e => !r.structs.contains e.1).map fun e =>
      .error ⟨.orphanImpl e.1, e.2.entries.head?.bind (·.2.pos)⟩ := by
  induction es with
  | nil => rfl
  | cons e rest ih =>
    obtain ⟨owner, ⟨entries⟩⟩ := e
    obtain ⟨hfirst, hrest⟩ := List.forall_mem_cons.1 h
    unfold orphan?
    cases howner : r.structs.contains owner with
    | true => simpa [howner] using ih hrest
    | false =>
      cases entries with
      | nil => exact absurd rfl hfirst
      | cons p entries => simp [howner]

/-- A change in place does what is done to a registry as a whole: if it fails it has changed
nothing, and it fails with the same error. -/
theorem Sound.inPlace_eq (h : r.Sound) (op : Operation) :
    r.inPlace op = r.settled (r.operate op) := by
  cases op with
  | enter d => exact enterInPlace_eq r d
  | freeze =>
    simp only [inPlace, operate, freeze, orphan?_eq h.filled]
    cases r.methods.entries.find? fun e => !r.structs.contains e.1 with
    | none => rfl
    | some e => rfl

end InPlace

section Steps

theorem keeps_of_operate (h : r.operate op = .ok r') : r.Keeps r' := by
  cases op with
  | enter d => exact keeps_of_add h
  | freeze =>
    obtain ⟨-, rfl⟩ := freeze_eq_ok_iff.1 h
    exact ⟨id, id⟩

theorem sound_empty : Registry.empty.Sound :=
  ⟨fun _ he => (List.not_mem_nil he).elim, fun hfrozen => Bool.noConfusion hfrozen⟩

theorem Sound.operate (hr : r.Sound) (h : r.operate op = .ok r') : r'.Sound := by
  cases op with
  | enter d =>
    cases d with
    | struct d =>
      obtain ⟨hopen, -, rfl⟩ := addStruct_eq_ok_iff.1 h
      exact ⟨hr.filled, fun hfrozen => Bool.noConfusion (hopen.symm.trans hfrozen)⟩
    | method m =>
      obtain ⟨hopen, -, rfl⟩ := addMethod_eq_ok_iff.1 h
      refine ⟨fun e he => ?_, fun hfrozen => Bool.noConfusion (hopen.symm.trans hfrozen)⟩
      rcases Table.mem_put he with rfl | he
      · -- the method that has just been entered is in the table
        rcases Table.head?_put m.decl.name m (r.methodsOf m.owner).entries with hput | ⟨_, _, hput⟩
        all_goals
          intro hnil
          change Table.put _ _ _ = [] at hnil
          rw [hnil] at hput
          cases hput
      · exact hr.filled e he
  | freeze =>
    obtain ⟨howned, rfl⟩ := freeze_eq_ok_iff.1 h
    exact ⟨hr.filled, fun _ => howned⟩

/-- An open registry takes what has a new name. -/
theorem add_of_not_taken (hopen : r.frozen = false) {d : Declaration} (hnew : r.taken d = false) :
    ∃ r', r.add d = .ok r' ∧ r'.Finds d := by
  cases d with
  | struct d =>
    refine ⟨_, addStruct_eq_ok_iff.2 ⟨hopen, hnew, rfl⟩, ?_⟩
    simp [Finds, Table.get?_insert]
  | method m =>
    refine ⟨_, addMethod_eq_ok_iff.2 ⟨hopen, hnew, rfl⟩, ?_⟩
    simp [Finds, methodsOf_insert, Table.get?_insert]

theorem add_of_frozen (h : r.frozen = true) (d : Declaration) :
    r.add d = .error ⟨.frozenRegistry, none⟩ := by
  cases d with
  | struct d => exact if_pos h
  | method m => exact if_pos h

/-- Freezing a registry again changes nothing. -/
theorem Sound.freeze_of_frozen (hr : r.Sound) (h : r.frozen = true) : r.freeze = .ok r := by
  refine freeze_eq_ok_iff.2 ⟨hr.owned h, ?_⟩
  obtain ⟨structs, methods, frozen⟩ := r
  cases h
  rfl

end Steps

section Histories

theorem settled_fst_eq (r : Registry) (res : Except RuntimeError Registry) :
    (r.settled res).1 = r ∨ res = .ok (r.settled res).1 := by
  cases res with
  | ok r' => exact .inr rfl
  | error e => exact .inl rfl

/-- What fails in place fails with an error, and leaves the registry as it was. -/
theorem Sound.inPlace_failure (hr : r.Sound) {failure : Failure}
    (h : (r.inPlace op).2 = some failure) :
    (r.inPlace op).1 = r ∧ ∃ e, failure = .error e ∧ r.operate op = .error e := by
  rw [hr.inPlace_eq] at h ⊢
  generalize r.operate op = res at h
  cases res with
  | ok r' => cases h
  | error e =>
    cases h
    exact ⟨rfl, e, rfl, rfl⟩

theorem history_append (r : Registry) (ops later : List Operation) :
    r.history (ops ++ later) = (r.history ops).history later :=
  List.foldl_append

/-- One more operation, whether it fails or not. -/
theorem Sound.inPlace (hr : r.Sound) (op : Operation) :
    (r.inPlace op).1.Sound ∧ r.Keeps (r.inPlace op).1 := by
  rw [hr.inPlace_eq]
  rcases settled_fst_eq r (r.operate op) with hsame | hok
  · rw [hsame]
    exact ⟨hr, .refl r⟩
  · exact ⟨hr.operate hok, keeps_of_operate hok⟩

theorem Sound.history (hr : r.Sound) (ops : List Operation) :
    (r.history ops).Sound ∧ r.Keeps (r.history ops) := by
  induction ops generalizing r with
  | nil => exact ⟨hr, .refl r⟩
  | cons op rest ih =>
    obtain ⟨hsound, hkeeps⟩ := hr.inPlace op
    obtain ⟨hrest, hkeeps'⟩ := ih hsound
    exact ⟨hrest, hkeeps.trans hkeeps'⟩

theorem Sound.inPlace_of_frozen (hr : r.Sound) (h : r.frozen = true) (op : Operation) :
    (r.inPlace op).1 = r := by
  rw [hr.inPlace_eq]
  cases op with
  | enter d =>
    rw [Registry.operate, add_of_frozen h]
    rfl
  | freeze =>
    rw [Registry.operate, hr.freeze_of_frozen h]
    rfl

theorem Sound.history_of_frozen (hr : r.Sound) (h : r.frozen = true) (ops : List Operation) :
    r.history ops = r := by
  induction ops with
  | nil => rfl
  | cons op rest ih =>
    change ((r.inPlace op).1).history rest = r
    rw [hr.inPlace_of_frozen h, ih]

/-- A registry that cannot be frozen blames the first method of a struct that is missing. -/
theorem Sound.freeze_error (hr : r.Sound) {e : RuntimeError} (he : r.freeze = .error e) :
    ∃ owner methods first, (owner, methods) ∈ r.methods.entries ∧
      r.structs.contains owner = false ∧ methods.entries.head? = some first ∧
        e = ⟨.orphanImpl owner, first.2.pos⟩ := by
  unfold freeze at he
  split at he
  · rename_i owner methods hfind
    have hmem := List.mem_of_find?_eq_some hfind
    have hmissing := List.find?_some hfind
    obtain ⟨first, hfirst⟩ := Option.ne_none_iff_exists'.1
      (mt List.head?_eq_none_iff.1 (hr.filled _ hmem))
    refine ⟨owner, methods, first, hmem, by simpa using hmissing, hfirst, ?_⟩
    cases he
    rw [hfirst]
    rfl
  · cases he

/-- Whatever has been done to an empty registry: what is done next in place is what is done to the
registry as a whole, and if it fails, with an error and in no other way, the registry stays as it
was. What has a new name is entered while the registry is open, and nothing that has been entered is
lost or replaced later. Every struct with methods has a first one, which is blamed where the struct
is missing when the registry is to be frozen. And a registry that is frozen has the structs of all
its methods, refuses every declaration and never changes. -/
theorem history_safe (ops : List Operation) :
    let r := Registry.empty.history ops
    (∀ op, r.inPlace op = r.settled (r.operate op) ∧
      ∀ failure, (r.inPlace op).2 = some failure →
        (r.inPlace op).1 = r ∧ ∃ e, failure = .error e ∧ r.operate op = .error e) ∧
    (∀ d, r.frozen = false → r.taken d = false →
      ∃ r', r.operate (.enter d) = .ok r' ∧ r'.Finds d) ∧
    (∀ later name d, r.structs.get? name = some d →
      (r.history later).structs.get? name = some d) ∧
    (∀ later owner name m, (r.methodsOf owner).get? name = some m →
      ((r.history later).methodsOf owner).get? name = some m) ∧
    (∀ e ∈ r.methods.entries, e.2.entries ≠ []) ∧
    (∀ e, r.freeze = .error e → ∃ owner methods first, (owner, methods) ∈ r.methods.entries ∧
      r.structs.contains owner = false ∧ methods.entries.head? = some first ∧
        e = ⟨.orphanImpl owner, first.2.pos⟩) ∧
    (r.frozen = true → (∀ later, r.history later = r) ∧
      (∀ d, r.add d = .error ⟨.frozenRegistry, none⟩) ∧
        ∀ owner, r.methods.contains owner = true → r.structs.contains owner = true) := by
  intro r
  have hr : r.Sound := (sound_empty.history ops).1
  refine ⟨fun op => ⟨hr.inPlace_eq op, fun _ => hr.inPlace_failure⟩, ?_, ?_, ?_, hr.filled, ?_, ?_⟩
  · exact fun d hopen hnew => add_of_not_taken hopen hnew
  · exact fun later name d hd => (hr.history later).2.structs hd
  · exact fun later owner name m hm => (hr.history later).2.methods hm
  · exact fun e he => hr.freeze_error he
  · exact fun hfrozen =>
      ⟨hr.history_of_frozen hfrozen, add_of_frozen hfrozen, hr.owned hfrozen⟩

/-- A method that comes before its struct: the registry cannot be frozen at first, and stays open.
The method is refused a second time, and once the struct is there the registry is frozen. -/
theorem history_safe_late_struct :
    let body : List Stmt := []
    let get : MethodDef := .ofDecl "A" ⟨⟨1, 10⟩, "get", some .shared, [], .unit, body⟩
    let late : List Operation := [.enter (.struct ⟨"A", [], none⟩), .freeze]
    let early := Registry.empty.history [.enter (.method get), .freeze]
    let r := early.history late
    ((early.inPlace .freeze).2 = some (.error ⟨.orphanImpl "A", some ⟨1, 10⟩⟩) ∧
      (early.inPlace .freeze).1 = early) ∧
    ((early.inPlace (.enter (.method get))).2 =
        some (.error ⟨.duplicateMethod "A" "get", some ⟨1, 10⟩⟩) ∧
      (early.inPlace (.enter (.method get))).1 = early) ∧
    (∃ r', early.operate (.enter (.struct ⟨"A", [], none⟩)) = .ok r' ∧
      r'.Finds (.struct ⟨"A", [], none⟩)) ∧
    (∃ m, (early.methodsOf "A").get? "get" = some m ∧ (r.methodsOf "A").get? "get" = some m) ∧
    r.frozen = true ∧ r.structs.contains "A" = true ∧
      r.history [.enter (.struct ⟨"B", [], none⟩), .freeze] = r := by
  intro body get late early r
  obtain ⟨hfails, hnew, -, hmethods, -⟩ := history_safe [.enter (.method get), .freeze]
  obtain ⟨-, -, -, -, -, -, hclosed⟩ := history_safe ([.enter (.method get), .freeze] ++ late)
  rw [history_append] at hclosed
  have horphan : (early.inPlace .freeze).2 = some (.error ⟨.orphanImpl "A", some ⟨1, 10⟩⟩) := by
    decide +kernel
  have htwice : (early.inPlace (.enter (.method get))).2 =
      some (.error ⟨.duplicateMethod "A" "get", some ⟨1, 10⟩⟩) := by
    decide +kernel
  have hsome : ((early.methodsOf "A").get? "get").isSome = true := by decide +kernel
  have hfrozen : r.frozen = true := by decide +kernel
  have howner : r.methods.contains "A" = true := by decide +kernel
  obtain ⟨m, hm⟩ := Option.isSome_iff_exists.1 hsome
  obtain ⟨hstays, -, howned⟩ := hclosed hfrozen
  exact ⟨⟨horphan, ((hfails _).2 _ horphan).1⟩, ⟨htwice, ((hfails _).2 _ htwice).1⟩,
    hnew _ (by decide +kernel) (by decide +kernel), ⟨m, hm, hmethods late _ _ m hm⟩, hfrozen,
    howned "A" howner, hstays _⟩

end Histories

end Registry

end Rustlet
