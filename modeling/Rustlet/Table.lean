/-! Tables from names to values that remember the order in which names were first entered. -/
namespace Rustlet

/-- A finite map from names, in order of first entry. -/
structure Table (α : Type) where
  entries : List (String × α)

namespace Table

variable {α β : Type}

/-- The table without entries. -/
def empty : Table α := ⟨[]⟩

/-- The first value entered under `name` in a list of entries. -/
def find (name : String) : List (String × α) → Option α
  | [] => none
  | (k, v) :: rest => if k = name then some v else find name rest

/-- Replaces the value under `name` where it stands, or adds an entry at the end. -/
def put (name : String) (value : α) : List (String × α) → List (String × α)
  | [] => [(name, value)]
  | (k, v) :: rest => if k = name then (k, value) :: rest else (k, v) :: put name value rest

/-- Changes the first value entered under `name`. -/
def change (name : String) (f : α → α) : List (String × α) → List (String × α)
  | [] => []
  | (k, v) :: rest => if k = name then (k, f v) :: rest else (k, v) :: change name f rest

/-- The value under a name. -/
def get? (t : Table α) (name : String) : Option α := find name t.entries

/-- Whether a name has a value. -/
def contains (t : Table α) (name : String) : Bool := (t.get? name).isSome

/-- Gives `name` a value. A name that has one keeps its place; a new name comes last. -/
def insert (t : Table α) (name : String) (value : α) : Table α := ⟨put name value t.entries⟩

/-- Changes the value under a name, if it has one. -/
def modify (t : Table α) (name : String) (f : α → α) : Table α := ⟨change name f t.entries⟩

/-- The names in order of first entry. -/
def names (t : Table α) : List String := t.entries.map (·.1)

/-- Enters pairs from first to last. -/
def ofList (pairs : List (String × α)) : Table α :=
  pairs.foldl (fun t p => t.insert p.1 p.2) empty

/-- Applies a function to every value. -/
def map (f : String → α → β) (t : Table α) : Table β := ⟨t.entries.map fun e => (e.1, f e.1 e.2)⟩

@[simp] theorem get?_empty (name : String) : (empty : Table α).get? name = none := rfl

theorem find_put (name x : String) (value : α) (es : List (String × α)) :
    find x (put name value es) = if name = x then some value else find x es := by
  induction es with
  | nil => simp [put, find]
  | cons e rest ih =>
    obtain ⟨k, v⟩ := e
    by_cases hk : k = name
    · subst hk
      by_cases hx : k = x <;> simp [put, find, hx]
    · by_cases hx : k = x
      · subst hx
        simp [put, find, hk, Ne.symm hk]
      · simp [put, find, hk, hx, ih]

theorem get?_insert (t : Table α) (name x : String) (value : α) :
    (t.insert name value).get? x = if name = x then some value else t.get? x :=
  find_put name x value t.entries

theorem find_change (name x : String) (f : α → α) (es : List (String × α)) :
    find x (change name f es) = if name = x then (find x es).map f else find x es := by
  induction es with
  | nil => simp [change, find]
  | cons e rest ih =>
    obtain ⟨k, v⟩ := e
    by_cases hk : k = name
    · subst hk
      by_cases hx : k = x <;> simp [change, find, hx]
    · by_cases hx : k = x
      · subst hx
        simp [change, find, hk, Ne.symm hk]
      · simp [change, find, hk, hx, ih]

theorem get?_modify (t : Table α) (name x : String) (f : α → α) :
    (t.modify name f).get? x = if name = x then (t.get? x).map f else t.get? x :=
  find_change name x f t.entries

theorem contains_insert (t : Table α) (name x : String) (value : α) :
    (t.insert name value).contains x = (decide (name = x) || t.contains x) := by
  by_cases h : name = x <;> simp [contains, get?_insert, h]

theorem find_isSome_iff (name : String) (es : List (String × α)) :
    (find name es).isSome = true ↔ name ∈ es.map (·.1) := by
  induction es with
  | nil => simp [find]
  | cons e rest ih =>
    obtain ⟨k, v⟩ := e
    by_cases hk : k = name
    · simp [find, hk]
    · simp [find, hk, Ne.symm hk, ih]

theorem mem_of_find {name : String} {a : α} {es : List (String × α)} (h : find name es = some a) :
    (name, a) ∈ es := by
  induction es with
  | nil => cases h
  | cons p rest ih =>
    unfold find at h
    split at h
    · rename_i hname
      cases h
      rw [← hname]
      exact List.mem_cons_self
    · exact List.mem_cons_of_mem _ (ih h)

theorem mem_put {name : String} {value : α} {es : List (String × α)} {e : String × α}
    (h : e ∈ put name value es) : e = (name, value) ∨ e ∈ es := by
  induction es with
  | nil => exact .inl (List.mem_singleton.1 h)
  | cons p rest ih =>
    unfold put at h
    split at h
    · rename_i hname
      rcases List.mem_cons.1 h with rfl | h
      · exact .inl (by rw [hname])
      · exact .inr (List.mem_cons_of_mem _ h)
    · rcases List.mem_cons.1 h with rfl | h
      · exact .inr List.mem_cons_self
      · exact (ih h).imp_right (List.mem_cons_of_mem _)

/-- The first entry is the one that is put, or stays. -/
theorem head?_put (name : String) (value : α) (es : List (String × α)) :
    (put name value es).head? = some (name, value) ∨
      ∃ e, es.head? = some e ∧ (put name value es).head? = some e := by
  cases es with
  | nil => exact .inl rfl
  | cons e rest =>
    unfold put
    split
    · rename_i hname
      rw [hname]
      exact .inl rfl
    · exact .inr ⟨e, rfl, rfl⟩

theorem contains_iff_mem_names (t : Table α) (name : String) :
    t.contains name = true ↔ name ∈ t.names :=
  find_isSome_iff name t.entries

theorem map_fst_put (name : String) (value : α) (es : List (String × α)) :
    (put name value es).map (·.1) =
      if name ∈ es.map (·.1) then es.map (·.1) else es.map (·.1) ++ [name] := by
  induction es with
  | nil => simp [put]
  | cons e rest ih =>
    obtain ⟨k, v⟩ := e
    by_cases hk : k = name
    · simp [put, hk]
    · by_cases hm : name ∈ rest.map (·.1) <;> simp_all [put, Ne.symm hk]

theorem names_insert (t : Table α) (name : String) (value : α) :
    (t.insert name value).names = if name ∈ t.names then t.names else t.names ++ [name] :=
  map_fst_put name value t.entries

theorem nodup_names_insert {t : Table α} (h : t.names.Nodup) (name : String) (value : α) :
    (t.insert name value).names.Nodup := by
  rw [names_insert]
  split
  · exact h
  · rename_i hnew
    refine List.nodup_append.2 ⟨h, by simp, ?_⟩
    intro x hx y hy hxy
    rw [List.mem_singleton.1 hy] at hxy
    exact hnew (hxy ▸ hx)

theorem nodup_names_ofList (pairs : List (String × α)) : (ofList pairs).names.Nodup := by
  have hfold : ∀ t : Table α, t.names.Nodup →
      (pairs.foldl (fun t p => t.insert p.1 p.2) t).names.Nodup := by
    induction pairs with
    | nil => exact fun _ h => h
    | cons p rest ih => exact fun t h => ih _ (nodup_names_insert h p.1 p.2)
  exact hfold empty List.nodup_nil

theorem map_fst_change (name : String) (f : α → α) (es : List (String × α)) :
    (change name f es).map (·.1) = es.map (·.1) := by
  induction es with
  | nil => rfl
  | cons e rest ih => by_cases hk : e.1 = name <;> simp [change, hk, ih]

theorem names_modify (t : Table α) (name : String) (f : α → α) :
    (t.modify name f).names = t.names :=
  map_fst_change name f t.entries

theorem find_map (f : String → α → β) (name : String) (es : List (String × α)) :
    find name (es.map fun e => (e.1, f e.1 e.2)) = (find name es).map (f name) := by
  induction es with
  | nil => rfl
  | cons e rest ih =>
    obtain ⟨k, v⟩ := e
    by_cases hk : k = name
    · simp [find, hk]
    · simp [find, hk, ih]

@[simp] theorem get?_map (f : String → α → β) (t : Table α) (name : String) :
    (t.map f).get? name = (t.get? name).map (f name) :=
  find_map f name t.entries

@[simp] theorem names_map (f : String → α → β) (t : Table α) : (t.map f).names = t.names := by
  simp [names, map, Function.comp_def]

@[simp] theorem contains_map (f : String → α → β) (t : Table α) (name : String) :
    (t.map f).contains name = t.contains name := by
  simp [contains]

theorem map_insert (f : String → α → β) (t : Table α) (name : String) (v : α) :
    (t.insert name v).map f = (t.map f).insert name (f name v) := by
  obtain ⟨es⟩ := t
  simp only [map, insert, mk.injEq]
  induction es with
  | nil => rfl
  | cons e rest ih =>
    obtain ⟨k, w⟩ := e
    by_cases hk : k = name
    · simp [put, hk]
    · simp [put, hk, ih]

theorem map_modify (f : String → α → β) (t : Table α) (name : String) {g : α → α} {g' : β → β}
    (h : ∀ v, f name (g v) = g' (f name v)) :
    (t.modify name g).map f = (t.map f).modify name g' := by
  obtain ⟨es⟩ := t
  simp only [map, modify, mk.injEq]
  induction es with
  | nil => rfl
  | cons e rest ih =>
    obtain ⟨k, w⟩ := e
    by_cases hk : k = name
    · simp [change, hk, h]
    · simp [change, hk, ih]

theorem map_ofList (f : String → α → β) (pairs : List (String × α)) :
    (ofList pairs).map f = ofList (pairs.map fun e => (e.1, f e.1 e.2)) := by
  have hfold : ∀ t : Table α, (pairs.foldl (fun t p => t.insert p.1 p.2) t).map f =
      (pairs.map fun e => (e.1, f e.1 e.2)).foldl (fun t p => t.insert p.1 p.2) (t.map f) := by
    induction pairs with
    | nil => exact fun _ => rfl
    | cons p rest ih =>
      intro t
      rw [List.foldl_cons, ih, map_insert]
      rfl
  exact hfold empty

/-- What a table holds after pairs are entered was one of them or there before. -/
theorem mem_of_get?_foldl_insert {name : String} {a : α} {t : Table α} {pairs : List (String × α)}
    (h : (pairs.foldl (fun t p => t.insert p.1 p.2) t).get? name = some a) :
    (name, a) ∈ pairs ∨ t.get? name = some a := by
  induction pairs generalizing t with
  | nil => exact .inr h
  | cons p rest ih =>
    rcases ih h with hrest | ht
    · exact .inl (List.mem_cons_of_mem _ hrest)
    · rw [get?_insert] at ht
      split at ht
      · rename_i hp
        cases ht
        exact .inl (hp ▸ List.mem_cons_self)
      · exact .inr ht

/-- A table that is entered from a list holds only what is in the list. -/
theorem mem_of_get?_ofList {name : String} {a : α} {pairs : List (String × α)}
    (h : (ofList pairs).get? name = some a) : (name, a) ∈ pairs := by
  rcases mem_of_get?_foldl_insert h with h | h
  · exact h
  · cases h

theorem names_foldl_insert (seen : List String) {t : Table α} (h : t.names = seen.eraseDups)
    (pairs : List (String × α)) :
    (pairs.foldl (fun t p => t.insert p.1 p.2) t).names = (seen ++ pairs.map (·.1)).eraseDups := by
  induction pairs generalizing t seen with
  | nil => simpa using h
  | cons p rest ih =>
    have hp : (t.insert p.1 p.2).names = (seen ++ [p.1]).eraseDups := by
      rw [names_insert, h, List.eraseDups_append]
      by_cases hm : p.1 ∈ seen
      · simp [hm, List.removeAll]
      · simp [hm, List.removeAll, List.eraseDups_cons]
    rw [List.foldl_cons, ih (seen ++ [p.1]) hp, List.map_cons, List.append_assoc]
    rfl

/-- The names of a table that is entered from a list are those of the list, each where it stands
first. -/
theorem names_ofList (pairs : List (String × α)) :
    (ofList pairs).names = (pairs.map (·.1)).eraseDups :=
  names_foldl_insert [] rfl pairs

end Table

end Rustlet
