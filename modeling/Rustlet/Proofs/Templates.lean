import Rustlet.Evaluation
import Rustlet.Proofs.Changes
import Rustlet.Proofs.Unfolding

/-! A template is a row of segments, and of one row only. -/
namespace Rustlet

namespace Template

variable {α : Type}

/-- How a segment is written. -/
def Segment.written : Segment → List Char
  | char c => [c]
  | openBrace => ['\x7b', '\x7b']
  | closeBrace => ['\x7d', '\x7d']
  | hole .display => ['\x7b', '\x7d']
  | hole .debug => ['\x7b', ':', '?', '\x7d']

/-- A plain character is no brace. -/
def Segment.Proper : Segment → Prop
  | char c => c ≠ '\x7b' ∧ c ≠ '\x7d'
  | openBrace | closeBrace | hole _ => True

/-- Whether a segment takes an argument. -/
def Segment.isHole : Segment → Bool
  | hole _ => true
  | char _ | openBrace | closeBrace => false

/-- What a segment stands for, given what a hole stands for. -/
def Segment.meaning (hole : Style → String) : Segment → String
  | char c => c.toString
  | openBrace => "\x7b"
  | closeBrace => "\x7d"
  | .hole style => hole style

/-- A row of segments is written as a template. -/
structure Writes (ss : List Segment) (template : List Char) : Prop where
  proper : ∀ s ∈ ss, s.Proper
  written : template = ss.flatMap Segment.written

/-- How many arguments a row of segments takes. -/
def holes (ss : List Segment) : Nat := ss.countP Segment.isHole

/-- What a row of segments stands for: a hole stands for the argument with its own number. -/
def meaning (text : Style → α → String) (ss : List Segment) (args : List α) : String :=
  String.join (ss.mapIdx fun i s =>
    s.meaning fun style => (args[holes (ss.take i)]?.map (text style)).getD "")

/-- A template that is filled with arguments becomes a text. -/
def FillsTo (text : Style → α → String) (template : String) (args : List α) (result : String) :
    Prop :=
  ∃ ss, Writes ss template.toList ∧ holes ss = args.length ∧ result = meaning text ss args

section Segments

theorem segments_written_append {s : Segment} (hs : s.Proper) (rest : List Char) :
    segments (s.written ++ rest) = (s :: (segments rest).1, (segments rest).2) := by
  cases s with
  | char c =>
    obtain ⟨hopen, hclose⟩ := hs
    change segments (c :: rest) = _
    rw [segments.eq_8 c rest (fun _ h => absurd h hopen) (fun _ h => absurd h hopen)
      (fun _ h => absurd h hopen) hopen (fun _ h => absurd h hclose) hclose]
  | openBrace => rfl
  | closeBrace => rfl
  | hole style => cases style <;> rfl

theorem Writes.segments_eq {ss : List Segment} {template : List Char} (h : Writes ss template) :
    segments template = (ss, none) := by
  obtain ⟨hproper, rfl⟩ := h
  induction ss with
  | nil => rfl
  | cons s ss ih =>
    obtain ⟨hs, hss⟩ := List.forall_mem_cons.1 hproper
    rw [List.flatMap_cons, segments_written_append hs, ih hss]

theorem Writes.cons {s : Segment} (hs : s.Proper) {ss : List Segment} {rest : List Char}
    (h : Writes ss rest) : Writes (s :: ss) (s.written ++ rest) :=
  ⟨List.forall_mem_cons.2 ⟨hs, h.proper⟩, by rw [List.flatMap_cons, h.written]⟩

/-- A template without a fault is written as its segments. -/
theorem writes_segments (template : List Char) (h : (segments template).2 = none) :
    Writes (segments template).1 template := by
  fun_induction segments template with
  | case1 => exact ⟨by simp, rfl⟩
  | case2 rest ss f hrest ih =>
    rw [hrest] at ih
    exact (ih h).cons (s := .openBrace) trivial
  | case3 rest ss f hrest ih =>
    rw [hrest] at ih
    exact (ih h).cons (s := .hole .display) trivial
  | case4 rest ss f hrest ih =>
    rw [hrest] at ih
    exact (ih h).cons (s := .hole .debug) trivial
  | case5 rest => cases h
  | case6 rest ss f hrest ih =>
    rw [hrest] at ih
    exact (ih h).cons (s := .closeBrace) trivial
  | case7 rest => cases h
  | case8 c rest _ _ _ hopen _ hclose ss f hrest ih =>
    rw [hrest] at ih
    exact (ih h).cons (s := .char c) ⟨hopen, hclose⟩

theorem Writes.unique {ss ss' : List Segment} {template : List Char} (h : Writes ss template)
    (h' : Writes ss' template) : ss' = ss :=
  congrArg Prod.fst (h'.segments_eq.symm.trans h.segments_eq)

end Segments

section Filling

@[simp] theorem holes_hole (style : Style) (ss : List Segment) :
    holes (.hole style :: ss) = holes ss + 1 :=
  List.countP_cons_of_pos rfl

theorem holes_cons {s : Segment} (hs : s.isHole = false) (ss : List Segment) :
    holes (s :: ss) = holes ss :=
  List.countP_cons_of_neg (by simp [hs])

theorem Segment.exists_hole {s : Segment} (hs : s.isHole = true) : ∃ style, s = .hole style := by
  cases s with
  | hole style => exact ⟨style, rfl⟩
  | _ => cases hs

theorem Segment.meaning_of_isHole {s : Segment} (hs : s.isHole = false) (hole : Style → String) :
    s.meaning hole = s.meaning fun _ => "" := by
  cases s with
  | hole style => cases hs
  | _ => rfl

variable (text : Style → α → String)

theorem meaning_cons {s : Segment} (hs : s.isHole = false) (ss : List Segment) (args : List α) :
    meaning text (s :: ss) args = s.meaning (fun _ => "") ++ meaning text ss args := by
  unfold meaning
  rw [List.mapIdx_cons, String.join_cons, Segment.meaning_of_isHole hs]
  simp only [List.take_succ_cons, holes_cons hs]

theorem meaning_hole (style : Style) (ss : List Segment) (v : α) (args : List α) :
    meaning text (.hole style :: ss) (v :: args) = text style v ++ meaning text ss args := by
  unfold meaning
  rw [List.mapIdx_cons, String.join_cons]
  simp only [List.take_succ_cons, holes_hole, List.getElem?_cons_succ]
  rfl

/-- A segment that takes no argument is one part. -/
theorem exists_fill_cons {s : Segment} (hs : s.isHole = false) :
    ∃ part : Part α, part.text text = s.meaning (fun _ => "") ∧ ∀ fault ss args,
      fill fault (s :: ss) args = (part :: (fill fault ss args).1, (fill fault ss args).2) := by
  cases s with
  | char c => exact ⟨.char c, rfl, fun _ _ _ => rfl⟩
  | openBrace => exact ⟨.char '\x7b', rfl, fun _ _ _ => rfl⟩
  | closeBrace => exact ⟨.char '\x7d', rfl, fun _ _ _ => rfl⟩
  | hole style => cases hs

/-- Segments are filled without a fault just if they end without one and have as many holes as there
are arguments. -/
theorem fill_eq_none_iff (fault : Option Fault) (ss : List Segment) (args : List α) :
    (fill fault ss args).2 = none ↔ fault = none ∧ holes ss = args.length := by
  induction ss generalizing args with
  | nil =>
    cases args with
    | nil => simp [fill, holes]
    | cons v args => simp [fill, holes]
  | cons s ss ih =>
    cases hs : s.isHole with
    | false =>
      obtain ⟨part, -, hfill⟩ := exists_fill_cons (fun _ (_ : α) => "") hs
      rw [hfill, holes_cons hs]
      exact ih args
    | true =>
      obtain ⟨style, rfl⟩ := Segment.exists_hole hs
      cases args with
      | nil => simp [fill]
      | cons v args =>
        rw [holes_hole, List.length_cons, Nat.add_right_cancel_iff]
        exact ih args

/-- The parts of filled segments read as the segments do. -/
theorem join_fill (fault : Option Fault) {ss : List Segment} {args : List α}
    (h : holes ss = args.length) :
    String.join ((fill fault ss args).1.map (Part.text text)) = meaning text ss args := by
  induction ss generalizing args with
  | nil =>
    obtain rfl := List.length_eq_zero_iff.1 h.symm
    rfl
  | cons s ss ih =>
    cases hs : s.isHole with
    | false =>
      obtain ⟨part, hpart, hfill⟩ := exists_fill_cons text hs
      rw [holes_cons hs] at h
      rw [hfill, List.map_cons, String.join_cons, hpart, ih h, meaning_cons text hs]
    | true =>
      obtain ⟨style, rfl⟩ := Segment.exists_hole hs
      cases args with
      | nil => simp at h
      | cons v args =>
        rw [holes_hole, List.length_cons, Nat.add_right_cancel_iff] at h
        rw [meaning_hole, ← ih h]
        exact String.join_cons

/-- The parts of a template are without a fault just if it is written as segments with as many holes
as there are arguments. -/
theorem parts_eq_none_iff (template : String) (args : List α) :
    (parts template args).2 = none ↔
      ∃ ss, Writes ss template.toList ∧ holes ss = args.length := by
  refine (fill_eq_none_iff ..).trans ?_
  constructor
  · rintro ⟨hfault, hholes⟩
    exact ⟨_, writes_segments _ hfault, hholes⟩
  · rintro ⟨ss, hwrites, hholes⟩
    rw [hwrites.segments_eq]
    exact ⟨rfl, hholes⟩

/-- A template that is written as segments has their parts. -/
theorem join_parts {template : String} {args : List α} {ss : List Segment}
    (hwrites : Writes ss template.toList) (hholes : holes ss = args.length) :
    String.join ((parts template args).1.map (Part.text text)) = meaning text ss args := by
  unfold parts
  rw [hwrites.segments_eq]
  exact join_fill text none hholes

/-- A template is filled just if it is written as segments with as many holes as there are
arguments, and then reads as they do. -/
theorem expand_eq_ok_iff (template : String) (args : List α) (result : String) :
    expand text template args = .ok result ↔ FillsTo text template args result := by
  have hnone := parts_eq_none_iff template args
  unfold expand FillsTo
  split
  · rename_i ps hps
    rw [hps] at hnone
    obtain ⟨ss, hwrites, hholes⟩ := hnone.1 rfl
    have hjoin := join_parts text hwrites hholes
    rw [hps] at hjoin
    rw [Except.ok.injEq, hjoin]
    constructor
    · rintro rfl
      exact ⟨ss, hwrites, hholes, rfl⟩
    · rintro ⟨ss', hwrites', -, rfl⟩
      rw [hwrites.unique hwrites']
  · rename_i ps f hps
    rw [hps] at hnone
    constructor
    · intro h
      cases h
    · rintro ⟨ss, hwrites, hholes, -⟩
      cases hnone.2 ⟨ss, hwrites, hholes⟩

/-- What is filled in is one of the arguments. -/
theorem mem_of_value_mem_fill {fault : Option Fault} {ss : List Segment} {args : List α}
    {style : Style} {v : α} (h : Part.value style v ∈ (fill fault ss args).1) : v ∈ args := by
  induction ss generalizing args with
  | nil => cases args <;> cases h
  | cons s ss ih =>
    cases s with
    | hole style' =>
      cases args with
      | nil => cases h
      | cons w args =>
        rcases List.mem_cons.1 h with heq | h
        · cases heq
          exact List.mem_cons_self
        · exact List.mem_cons_of_mem w (ih h)
    | _ =>
      rcases List.mem_cons.1 h with heq | h
      · cases heq
      · exact ih h

end Filling

section Plain

theorem halve_pair (c : Char) (rest : List Char) :
    halve c (c :: c :: rest) = c :: halve c rest := by
  simp [halve]

theorem halve_cons_of_ne {c d : Char} (h : d ≠ c) (rest : List Char) :
    halve c (d :: rest) = d :: halve c rest := by
  cases rest <;> simp [halve, h]

/-- How a segment is written after opening braces are halved. -/
def Segment.opened : Segment → List Char
  | openBrace => ['\x7b']
  | s => s.written

/-- Halving opening braces changes the segments that are such braces and no others. -/
theorem halve_written {ss : List Segment} (hproper : ∀ s ∈ ss, s.Proper) (hholes : holes ss = 0) :
    halve '\x7b' (ss.flatMap Segment.written) = ss.flatMap Segment.opened := by
  have hclose : '\x7d' ≠ '\x7b' := by decide
  induction ss with
  | nil => rfl
  | cons s ss ih =>
    obtain ⟨hs, hss⟩ := List.forall_mem_cons.1 hproper
    cases s with
    | hole style => simp at hholes
    | char c => exact (halve_cons_of_ne hs.1 _).trans (congrArg (c :: ·) (ih hss hholes))
    | openBrace => exact (halve_pair _ _).trans (congrArg ('\x7b' :: ·) (ih hss hholes))
    | closeBrace =>
      change halve '\x7b' ('\x7d' :: '\x7d' :: ss.flatMap Segment.written) = _
      rw [halve_cons_of_ne hclose, halve_cons_of_ne hclose, ih hss hholes]
      rfl

variable (text : Style → α → String)

/-- Halving closing braces leaves what the segments stand for: no brace that was halved before is
next to one that makes it a pair. -/
theorem halve_opened {ss : List Segment} (hproper : ∀ s ∈ ss, s.Proper) (hholes : holes ss = 0) :
    halve '\x7d' (ss.flatMap Segment.opened) = (meaning text ss []).toList := by
  have hopen : '\x7b' ≠ '\x7d' := by decide
  induction ss with
  | nil => rfl
  | cons s ss ih =>
    obtain ⟨hs, hss⟩ := List.forall_mem_cons.1 hproper
    cases s with
    | hole style => simp at hholes
    | char c =>
      rw [meaning_cons text rfl, String.toList_append, ← ih hss hholes, Segment.meaning,
        Char.toString, String.toList_singleton]
      exact halve_cons_of_ne hs.2 _
    | openBrace =>
      rw [meaning_cons text rfl, String.toList_append, ← ih hss hholes]
      exact halve_cons_of_ne hopen _
    | closeBrace =>
      rw [meaning_cons text rfl, String.toList_append, ← ih hss hholes]
      exact halve_pair _ _

/-- A template that is filled without arguments is printed as the same text. -/
theorem FillsTo.plain_eq {text : Style → α → String} {template result : String}
    (h : FillsTo text template [] result) :
    plain template = result := by
  obtain ⟨ss, hwrites, hholes, rfl⟩ := h
  apply String.toList_injective
  rw [plain, String.toList_ofList, hwrites.written, halve_written hwrites.proper hholes,
    halve_opened text hwrites.proper hholes]

/-- A text with each brace written twice. -/
def doubled (content : String) : String :=
  String.ofList (content.toList.flatMap fun c =>
    if c = '\x7b' ∨ c = '\x7d' then [c, c] else [c])

/-- The segment that stands for a character. -/
def Segment.ofChar (c : Char) : Segment :=
  if c = '\x7b' then openBrace else if c = '\x7d' then closeBrace else char c

theorem Segment.proper_ofChar (c : Char) : (ofChar c).Proper := by
  unfold ofChar
  split
  · trivial
  · split
    · trivial
    · exact ⟨‹_›, ‹_›⟩

theorem Segment.isHole_ofChar (c : Char) : (ofChar c).isHole = false := by
  unfold ofChar
  split
  · rfl
  · split <;> rfl

theorem Segment.written_ofChar (c : Char) :
    (ofChar c).written = if c = '\x7b' ∨ c = '\x7d' then [c, c] else [c] := by
  unfold ofChar
  by_cases hopen : c = '\x7b'
  · simp [hopen, written]
  · by_cases hclose : c = '\x7d' <;> simp [hopen, hclose, written]

theorem Segment.meaning_ofChar (c : Char) (hole : Style → String) :
    (ofChar c).meaning hole = c.toString := by
  unfold ofChar
  by_cases hopen : c = '\x7b'
  · simp [hopen, meaning]
  · by_cases hclose : c = '\x7d' <;> simp [hopen, hclose, meaning]

theorem writes_ofChar (cs : List Char) : Writes (cs.map Segment.ofChar)
    (cs.flatMap fun c => if c = '\x7b' ∨ c = '\x7d' then [c, c] else [c]) := by
  refine ⟨fun s hs => ?_, ?_⟩
  · obtain ⟨c, -, rfl⟩ := List.mem_map.1 hs
    exact Segment.proper_ofChar c
  · rw [List.flatMap_map]
    simp only [Segment.written_ofChar]

theorem holes_ofChar (cs : List Char) : holes (cs.map Segment.ofChar) = 0 := by
  refine List.countP_eq_zero.2 fun s hs => ?_
  obtain ⟨c, -, rfl⟩ := List.mem_map.1 hs
  rw [Segment.isHole_ofChar]
  exact Bool.false_ne_true

theorem meaning_ofChar (cs : List Char) :
    meaning text (cs.map Segment.ofChar) [] = String.ofList cs := by
  induction cs with
  | nil => rfl
  | cons c cs ih =>
    rw [List.map_cons, meaning_cons text (Segment.isHole_ofChar c), ih, Segment.meaning_ofChar]
    apply String.toList_injective
    simp

/-- Doubled braces stand for what was doubled. -/
theorem fillsTo_doubled (content : String) : FillsTo text (doubled content) [] content := by
  refine ⟨content.toList.map Segment.ofChar, ?_, holes_ofChar _, ?_⟩
  · rw [doubled, String.toList_ofList]
    exact writes_ofChar _
  · rw [meaning_ofChar, String.ofList_toList]

end Plain

end Template

namespace Evaluation

/-- A value is shown in either style, or its text is too deep. -/
theorem styled_or_overflow (s : Setting) (frames : Nat) (m : Machine) (style : Template.Style)
    (v : Value) :
    styled s frames style v m = .ok (m.heap.styled s.fieldOrder style v) m ∨
      m.heap.debug? s.fieldOrder frames v = none ∧
        styled s frames style v m = .error .overflow m := by
  have hstyled : ∀ result, m.heap.styled? s.fieldOrder frames style v = result →
      styled s frames style v m = Eval.ofDepth result m := by
    rintro _ rfl
    rfl
  have hdebug : m.heap.debug? s.fieldOrder frames v = none ∨
      m.heap.debug? s.fieldOrder frames v = some (m.heap.debug s.fieldOrder v) := by
    cases htext : m.heap.debug? s.fieldOrder frames v with
    | none => exact .inl rfl
    | some text => exact .inr (congrArg some (Heap.eq_debug_of_debug? htext))
  cases style with
  | debug => exact (hdebug.imp (fun h => ⟨h, hstyled _ h⟩) (hstyled _)).symm
  | display =>
    cases v with
    | text content => exact .inl rfl
    | _ => exact (hdebug.imp (fun h => ⟨h, hstyled _ h⟩) (hstyled _)).symm

/-- The parts of a template are shown one after the other, up to one that is too deep. -/
theorem mapM_partText (s : Setting) (frames : Nat) (m : Machine)
    (parts : List (Template.Part Value)) :
    parts.mapM (partText s frames) m =
        .ok (parts.map (Template.Part.text (m.heap.styled s.fieldOrder))) m ∨
      (∃ style v, Template.Part.value style v ∈ parts ∧
        m.heap.debug? s.fieldOrder frames v = none) ∧
        parts.mapM (partText s frames) m = .error .overflow m := by
  induction parts with
  | nil => exact .inl rfl
  | cons part parts ih =>
    have hpart : partText s frames part m = .ok (part.text (m.heap.styled s.fieldOrder)) m ∨
        (∃ style v, Template.Part.value style v ∈ part :: parts ∧
          m.heap.debug? s.fieldOrder frames v = none) ∧
          partText s frames part m = .error .overflow m := by
      cases part with
      | char c => exact .inl rfl
      | value style v =>
        exact (styled_or_overflow s frames m style v).imp_right fun h =>
          ⟨⟨style, v, List.mem_cons_self, h.1⟩, h.2⟩
    rw [List.mapM_cons]
    rcases hpart with hpart | ⟨hdeep, hpart⟩
    · rcases ih with hrest | ⟨⟨style, v, hmem, hdeep⟩, hrest⟩
      · exact .inl ((Eval.bind_of_ok hpart).trans ((Eval.bind_of_ok hrest).trans rfl))
      · refine .inr ⟨⟨style, v, List.mem_cons_of_mem part hmem, hdeep⟩, ?_⟩
        exact (Eval.bind_of_ok hpart).trans (Eval.bind_of_error hrest)
    · exact .inr ⟨hdeep, Eval.bind_of_error hpart⟩

/-- A running script fills a template as it is filled without a machine, and blames faults on the
given place, unless an argument is too deep. -/
theorem expand_or_overflow (s : Setting) (frames : Nat) (m : Machine) (template : String)
    (args : List Value) (pos : Pos) :
    (expand s frames template args pos m =
      match Template.expand (m.heap.styled s.fieldOrder) template args with
      | .ok text => .ok text m
      | .error f => .error (.fault ⟨.badTemplate f, some pos⟩) m) ∨
      (∃ v ∈ args, m.heap.debug? s.fieldOrder frames v = none) ∧
        expand s frames template args pos m = .error .overflow m := by
  have hargs : ∀ style v, Template.Part.value style v ∈ (Template.parts template args).1 →
      v ∈ args := fun style v hmem => Template.mem_of_value_mem_fill hmem
  have hmap := mapM_partText s frames m (Template.parts template args).1
  unfold expand Template.expand
  generalize Template.parts template args = filled at hargs hmap
  obtain ⟨parts, wrong⟩ := filled
  rcases hmap with hmap | ⟨⟨style, v, hmem, hdeep⟩, hmap⟩
  · refine .inl ((Eval.bind_of_ok hmap).trans ?_)
    cases wrong <;> rfl
  · exact .inr ⟨⟨v, hargs style v hmem, hdeep⟩, Eval.bind_of_error hmap⟩

/-- A template is written as segments in one way at most. It is filled with arguments just if it is
written as segments with as many holes as there are arguments, and then the text is what they stand
for. Otherwise there is a fault, which a running script blames on the place it is given. The script
can only run out of stack instead, if the text of an argument is too deep. -/
theorem expand_fillsTo_iff (s : Setting) (frames : Nat) (m : Machine) (template : String)
    (args : List Value) (pos : Pos) :
    (∀ ss ss', Template.Writes ss template.toList → Template.Writes ss' template.toList →
      ss' = ss) ∧
      (∀ text, Template.expand (m.heap.styled s.fieldOrder) template args = .ok text ↔
        Template.FillsTo (m.heap.styled s.fieldOrder) template args text) ∧
      ((∀ text, expand s frames template args pos m = .ok text m ↔
          Template.FillsTo (m.heap.styled s.fieldOrder) template args text) ∧
        ((∀ text, ¬ Template.FillsTo (m.heap.styled s.fieldOrder) template args text) →
          ∃ f, expand s frames template args pos m =
            .error (.fault ⟨.badTemplate f, some pos⟩) m) ∨
        (∃ v ∈ args, m.heap.debug? s.fieldOrder frames v = none) ∧
          expand s frames template args pos m = .error .overflow m) := by
  have hfills := Template.expand_eq_ok_iff (m.heap.styled s.fieldOrder) template args
  refine ⟨fun ss ss' h h' => h.unique h', hfills, ?_⟩
  refine (expand_or_overflow s frames m template args pos).imp_left fun hexpand => ?_
  rw [hexpand]
  cases hpure : Template.expand (m.heap.styled s.fieldOrder) template args with
  | ok text =>
    refine ⟨fun text' => ?_, fun hnot => absurd ((hfills text).1 hpure) (hnot text)⟩
    rw [← hfills, hpure]
    simp
  | error f =>
    refine ⟨fun text => ?_, fun _ => ⟨f, rfl⟩⟩
    rw [← hfills, hpure]
    simp

/-- Braces that are doubled around a hole leave the hole, and one that is left over is a fault. -/
theorem expand_fillsTo_iff_braces :
    let s : Setting := ⟨false, .empty, .empty, 0⟩
    let m := Machine.start
    let args := [Value.text "a"]
    Template.FillsTo (m.heap.styled s.fieldOrder) "\x7b\x7b\x7b\x7d\x7d\x7d" args "\x7ba\x7d" ∧
      Template.Writes [.openBrace, .hole .display, .closeBrace] "\x7b\x7b\x7b\x7d\x7d\x7d".toList ∧
      (∀ ss, Template.Writes ss "\x7b\x7b\x7b\x7d\x7d\x7d".toList →
        ss = [.openBrace, .hole .display, .closeBrace]) ∧
      expand s 0 "\x7b\x7b\x7b\x7d\x7d\x7d" args .start m = .ok "\x7ba\x7d" m ∧
      (∀ text, ¬ Template.FillsTo (m.heap.styled s.fieldOrder) "\x7b\x7d\x7d" args text) ∧
      ∃ f, expand s 0 "\x7b\x7d\x7d" args .start m =
        .error (.fault ⟨.badTemplate f, some .start⟩) m := by
  intro s m args
  have hroom : ¬ ∃ v ∈ args, m.heap.debug? s.fieldOrder 0 v = none := by
    rintro ⟨v, hv, hdeep⟩
    obtain rfl := List.mem_singleton.1 hv
    cases hdeep
  obtain ⟨hunique, hfills, hrun⟩ := expand_fillsTo_iff s 0 m "\x7b\x7b\x7b\x7d\x7d\x7d" args .start
  obtain ⟨-, hfills', hrun'⟩ := expand_fillsTo_iff s 0 m "\x7b\x7d\x7d" args .start
  have hwrites : Template.Writes [.openBrace, .hole .display, .closeBrace]
      "\x7b\x7b\x7b\x7d\x7d\x7d".toList := ⟨by simp [Template.Segment.Proper], by decide⟩
  have hbad : ∀ text, ¬ Template.FillsTo (m.heap.styled s.fieldOrder) "\x7b\x7d\x7d" args text := by
    intro text h
    have hexpand : Template.expand (m.heap.styled s.fieldOrder) "\x7b\x7d\x7d" args =
        .error .unmatchedBrace := by decide
    rw [← hfills', hexpand] at h
    cases h
  have hgood := (hfills "\x7ba\x7d").1 (by decide)
  refine ⟨hgood, hwrites, fun ss => hunique _ ss hwrites, ?_, hbad, ?_⟩
  · exact ((hrun.resolve_right fun h => hroom h.1).1 _).2 hgood
  · exact (hrun'.resolve_right fun h => hroom h.1).2 hbad

/-- Formatting without arguments gives what the template is filled to. -/
theorem eval_format (s : Setting) (frames : Nat) (pos place : Pos) (template : String)
    (scope : ScopeId) (m : Machine) :
    eval s (frames + 2) (.macroCall pos "format" [.text place template] scope) m =
      match Template.expand (m.heap.styled s.fieldOrder) template [] with
      | .ok text => .ok (.text text) m
      | .error f => .error (.fault ⟨.badTemplate f, some pos⟩) m := by
  rcases expand_or_overflow s (frames + 1) m template [] pos with hexpand | ⟨⟨v, hv, -⟩, -⟩
  · change EStateM.bind (expand s (frames + 1) template [] pos)
      (fun text => pure (Value.text text)) m = _
    unfold EStateM.bind
    rw [hexpand]
    cases Template.expand (m.heap.styled s.fieldOrder) template [] <;> rfl
  · cases hv

/-- A template that is filled without arguments is the same text where it is only printed, and a
text with its braces doubled stands for itself both ways. So what is formatted without arguments is
also what is printed. -/
theorem print_agrees_format (text : Template.Style → Value → String) :
    (∀ template result, Template.expand text template [] = .ok result →
      Template.plain template = result) ∧
      (∀ content, Template.plain (Template.doubled content) = content ∧
        Template.expand text (Template.doubled content) [] = .ok content) ∧
      ∀ s frames pos place template scope m v m',
        eval s frames (.macroCall pos "format" [.text place template] scope) m = .ok v m' →
        ∃ result, v = .text result ∧
          eval s frames (.macroCall pos "print" [.text place template] scope) m =
            .ok .unit { m' with output := m'.output ++ result } ∧
          eval s frames (.macroCall pos "println" [.text place template] scope) m =
            .ok .unit { m' with output := m'.output ++ (result ++ "\n") } := by
  have hplain : ∀ (text : Template.Style → Value → String) template result,
      Template.expand text template [] = .ok result → Template.plain template = result :=
    fun text template result h => ((Template.expand_eq_ok_iff text template [] result).1 h).plain_eq
  refine ⟨hplain text, fun content => ?_, fun s frames pos place template scope m v m' h => ?_⟩
  · have hdoubled := Template.fillsTo_doubled text content
    exact ⟨hdoubled.plain_eq, (Template.expand_eq_ok_iff ..).2 hdoubled⟩
  -- One frame is for the call and one for its arguments, though there are none.
  · obtain _ | _ | frames := frames
    · cases h
    · cases h
    · rw [eval_format] at h
      cases hexpand : Template.expand (m.heap.styled s.fieldOrder) template [] with
      | error f =>
        rw [hexpand] at h
        cases h
      | ok result =>
        rw [hexpand] at h
        cases h
        obtain rfl := hplain _ _ _ hexpand
        exact ⟨_, rfl, rfl, rfl⟩

/-- Two pairs of closing braces in a row stand for two braces both ways. -/
theorem print_agrees_format_braces :
    let s : Setting := ⟨false, .empty, .empty, 0⟩
    let template := "\x7b\x7bx\x7d\x7d\x7d\x7d"
    Template.expand (Machine.start.heap.styled .empty) template [] = .ok "\x7bx\x7d\x7d" ∧
      Template.plain template = "\x7bx\x7d\x7d" ∧
      eval s 2 (.macroCall .start "format" [.text .start template] ScopeTree.global) .start =
        .ok (.text "\x7bx\x7d\x7d") .start ∧
      eval s 2 (.macroCall .start "print" [.text .start template] ScopeTree.global) .start =
        .ok .unit { Machine.start with output := "" ++ "\x7bx\x7d\x7d" } := by
  intro s template
  have hexpand : Template.expand (Machine.start.heap.styled .empty) template [] =
      .ok "\x7bx\x7d\x7d" := by decide
  have hformat : eval s 2 (.macroCall .start "format" [.text .start template] ScopeTree.global)
      .start = .ok (.text "\x7bx\x7d\x7d") .start := by
    rw [eval_format, hexpand]
  obtain ⟨hplain, -, hprint⟩ := print_agrees_format (Machine.start.heap.styled .empty)
  obtain ⟨result, hresult, hprinted, -⟩ := hprint _ _ _ _ _ _ _ _ _ hformat
  cases hresult
  exact ⟨hexpand, hplain _ _ hexpand, hformat, hprinted⟩

end Evaluation

end Rustlet
