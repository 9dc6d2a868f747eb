/-!
# Attributes

The attributes of an element in document order. Names are pairwise distinct: giving an attribute a new
value keeps its place. The distinctness is part of the type, so every element that is ever written
satisfies it.
-/

namespace DiagramMarkup

/-- Named values in order, each name once. -/
structure Attrs where
  /-- Names and values, in document order. -/
  entries : List (String × String)
  /-- No name occurs twice. -/
  distinct : (entries.map Prod.fst).Nodup
deriving DecidableEq

namespace Attrs

/-- No attributes. -/
def empty : Attrs := ⟨[], by simp⟩

instance : Inhabited Attrs := ⟨empty⟩

instance : EmptyCollection Attrs := ⟨empty⟩

/-- The names, in order. -/
def names (a : Attrs) : List String := a.entries.map Prod.fst

/-- How many attributes there are. -/
def size (a : Attrs) : Nat := a.entries.length

/-- The value of an attribute. -/
def get? (a : Attrs) (name : String) : Option String := a.entries.lookup name

/-- The value of an attribute, empty when it is missing. -/
def value (a : Attrs) (name : String) : String := (a.get? name).getD ""

/-- Is the attribute present? -/
def has (a : Attrs) (name : String) : Bool := a.names.contains name

/-- Replace the value behind a name, or append the pair. -/
def put (name value : String) : List (String × String) → List (String × String)
  | [] => [(name, value)]
  | (n, v) :: rest => if n == name then (n, value) :: rest else (n, v) :: put name value rest

theorem put_cons_self (name value v : String) (rest : List (String × String)) :
    put name value ((name, v) :: rest) = (name, value) :: rest := by simp [put]

theorem put_cons_of_ne {name n : String} (h : n ≠ name) (value v : String)
    (rest : List (String × String)) :
    put name value ((n, v) :: rest) = (n, v) :: put name value rest := by simp [put, h]

theorem mem_map_put {name value n : String} {es : List (String × String)}
    (h : n ∈ (put name value es).map Prod.fst) : n = name ∨ n ∈ es.map Prod.fst := by
  induction es with
  | nil => simpa [put] using h
  | cons e rest ih =>
    obtain ⟨m, v⟩ := e
    by_cases hm : m = name
    · subst hm
      rw [put_cons_self] at h
      exact .inr h
    · rw [put_cons_of_ne hm, List.map_cons, List.mem_cons] at h
      rw [List.map_cons, List.mem_cons]
      rcases h with h | h
      · exact .inr (.inl h)
      · exact (ih h).imp_right .inr

theorem put_distinct {name value : String} {es : List (String × String)}
    (h : (es.map Prod.fst).Nodup) : ((put name value es).map Prod.fst).Nodup := by
  induction es with
  | nil => simp [put]
  | cons e rest ih =>
    obtain ⟨m, v⟩ := e
    simp only [List.map_cons, List.nodup_cons] at h
    by_cases hm : m = name
    · subst hm
      rw [put_cons_self]
      simpa using h
    · rw [put_cons_of_ne hm, List.map_cons, List.nodup_cons]
      refine ⟨fun hmem => ?_, ih h.2⟩
      rcases mem_map_put hmem with h' | h'
      · exact hm h'
      · exact h.1 h'

theorem put_of_not_mem {name value : String} : ∀ {es : List (String × String)}, name ∉ es.map Prod.fst →
    put name value es = es ++ [(name, value)]
  | [], _ => rfl
  | (n, v) :: es, h => by
    rw [List.map_cons, List.mem_cons, not_or] at h
    rw [put_cons_of_ne (Ne.symm h.1), put_of_not_mem h.2, List.cons_append]

/-- Give an attribute a value; a present one keeps its place. -/
def set (a : Attrs) (name value : String) : Attrs :=
  ⟨put name value a.entries, put_distinct a.distinct⟩

/-- Give an attribute a value unless it is present. -/
def setDefault (a : Attrs) (name value : String) : Attrs :=
  if a.has name then a else a.set name value

/-- Remove an attribute. -/
def erase (a : Attrs) (name : String) : Attrs :=
  ⟨a.entries.filter (·.1 != name),
    a.distinct.sublist (List.filter_sublist.map Prod.fst)⟩

/-- Remove several attributes. -/
def eraseAll (a : Attrs) (names : List String) : Attrs := names.foldl erase a

/-- Set attributes in turn. -/
def setAll (a : Attrs) (pairs : List (String × String)) : Attrs :=
  pairs.foldl (fun a p => a.set p.1 p.2) a

/-- Attributes from pairs, a repeated name keeping its first place and taking its last value. -/
def ofList (pairs : List (String × String)) : Attrs := empty.setAll pairs

/-- Attributes with new names come one after the other. -/
theorem entries_setAll {ps : List (String × String)} : ∀ {a : Attrs}, ((a.entries ++ ps).map Prod.fst).Nodup →
    (a.setAll ps).entries = a.entries ++ ps := by
  induction ps with
  | nil => exact fun _ => (List.append_nil _).symm
  | cons p ps ih =>
    intro a h
    have hp : p.1 ∉ a.entries.map Prod.fst := by
      rw [List.map_append, List.nodup_append] at h
      exact fun hmem => h.2.2 p.1 hmem p.1 List.mem_cons_self rfl
    have hset : (a.set p.1 p.2).entries = a.entries ++ [p] := put_of_not_mem hp
    rw [List.append_cons, ← hset] at h
    rw [List.append_cons, ← hset]
    exact ih h

/-- The attributes set in turn from none. -/
def copy (a : Attrs) : Attrs := ofList a.entries

@[simp]
theorem copy_eq (a : Attrs) : a.copy = a := by
  have h : a.copy.entries = a.entries := entries_setAll a.distinct
  generalize a.copy = b at h
  cases a
  cases b
  cases h
  rfl

/-- The attributes as they stand in a tag, without escapes. -/
def text (a : Attrs) : String :=
  " ".intercalate (a.entries.map fun p => p.1 ++ "=\"" ++ p.2 ++ "\"")

end Attrs

end DiagramMarkup
