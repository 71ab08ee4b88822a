/-
Tables from names to values, in the order in which the names came.
-/

namespace Betik

/-- Each name stands at most once as long as the table is built by `put`. -/
structure Table (α : Type) where
  entries : List (String × α)
deriving Repr

namespace Table

variable {α β : Type}

def empty : Table α :=
  ⟨[]⟩

def names (t : Table α) : List String :=
  t.entries.map Prod.fst

def findEntry (name : String) : List (String × α) → Option α
  | [] => none
  | (n, v) :: es => if n = name then some v else findEntry name es

def get? (t : Table α) (name : String) : Option α :=
  findEntry name t.entries

def contains (t : Table α) (name : String) : Bool :=
  (t.get? name).isSome

/-- The entries with a name's value replaced, or with the name at their end. -/
def putEntry (name : String) (value : α) : List (String × α) → List (String × α)
  | [] => [(name, value)]
  | (n, v) :: es => if n = name then (n, value) :: es else (n, v) :: putEntry name value es

def put (t : Table α) (name : String) (value : α) : Table α :=
  ⟨putEntry name value t.entries⟩

@[simp] theorem get?_empty (name : String) : (empty : Table α).get? name = none := rfl

@[simp] theorem names_empty : (empty : Table α).names = [] := rfl

theorem get?_put (t : Table α) (name other : String) (value : α) :
    (t.put name value).get? other = if name = other then some value else t.get? other := by
  obtain ⟨es⟩ := t
  simp only [put, get?]
  induction es with
  | nil => simp [putEntry, findEntry]
  | cons e es ih =>
    obtain ⟨n, v⟩ := e
    by_cases hn : n = name
    · subst hn
      by_cases h : n = other <;> simp [putEntry, findEntry, h]
    · by_cases h : n = other
      · subst h
        simp [putEntry, findEntry, hn, Ne.symm hn]
      · simp [putEntry, findEntry, hn, h, ih]

theorem contains_iff_mem {t : Table α} {name : String} :
    t.contains name ↔ name ∈ t.names := by
  obtain ⟨es⟩ := t
  simp only [contains, get?, names]
  induction es with
  | nil => simp [findEntry]
  | cons e es ih =>
    obtain ⟨n, v⟩ := e
    by_cases h : n = name
    · simp [findEntry, h]
    · simp [findEntry, h, ih, Ne.symm h]

/-- A name that the table has keeps its place; a new one comes last. -/
theorem names_put (t : Table α) (name : String) (value : α) :
    (t.put name value).names = if name ∈ t.names then t.names else t.names ++ [name] := by
  obtain ⟨es⟩ := t
  simp only [put, names]
  induction es with
  | nil => simp [putEntry]
  | cons e es ih =>
    obtain ⟨n, v⟩ := e
    by_cases hn : n = name
    · simp [putEntry, hn]
    · have hn' : name ≠ n := fun h => hn h.symm
      simp only [putEntry, hn, if_false, List.map_cons, ih, List.mem_cons, hn', false_or]
      split <;> rename_i h <;> simp [h]

def map (f : α → β) (t : Table α) : Table β :=
  ⟨t.entries.map fun (name, value) => (name, f value)⟩

theorem get?_map (f : α → β) (t : Table α) (name : String) :
    (t.map f).get? name = (t.get? name).map f := by
  obtain ⟨es⟩ := t
  simp only [map, get?]
  induction es with
  | nil => rfl
  | cons e es ih =>
    obtain ⟨n, v⟩ := e
    by_cases h : n = name <;> simp [findEntry, h, ih]

theorem put_map (f : α → β) (t : Table α) (name : String) (value : α) :
    (t.put name value).map f = (t.map f).put name (f value) := by
  obtain ⟨es⟩ := t
  simp only [map, put, mk.injEq]
  induction es with
  | nil => rfl
  | cons e es ih =>
    obtain ⟨n, v⟩ := e
    by_cases h : n = name <;> simp [putEntry, h, ih]

end Table
end Betik
