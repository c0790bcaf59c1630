namespace Stubwise

abbrev Table (α : Type) := List (String × α)

namespace Table

variable {α : Type}

def get? (table : Table α) (name : String) : Option α :=
  match table with
  | [] => none
  | (key, value) :: rest => if key == name then some value else get? rest name

def contains (table : Table α) (name : String) : Bool :=
  (table.get? name).isSome

def set (table : Table α) (name : String) (value : α) : Table α :=
  match table with
  | [] => [(name, value)]
  | (key, old) :: rest =>
    if key == name then (key, value) :: rest else (key, old) :: set rest name value

def erase (table : Table α) (name : String) : Table α :=
  List.filter (fun entry => entry.1 != name) table

def keys (table : Table α) : List String :=
  List.map (·.1) table

@[simp]
theorem get?_set (table : Table α) (name other : String) (value : α) :
    (table.set name value).get? other = if name == other then some value else table.get? other := by
  induction table with
  | nil => simp [set, get?]
  | cons entry rest ih =>
    obtain ⟨key, old⟩ := entry
    unfold set
    by_cases same : key = name
    · subst same
      by_cases hit : key = other <;> simp [get?, hit]
    · have differ : (key == name) = false := by simpa using same
      rw [differ]
      by_cases hit : key = other
      · subst hit
        have back : (name == key) = false := by simpa using fun h => same h.symm
        simp [get?, back]
      · have miss : (key == other) = false := by simpa using hit
        simp [get?, miss, ih]

end Table

def sortNames (names : List String) : List String :=
  names.mergeSort fun a b => decide (a ≤ b)

namespace NameSet

def insert (set : List String) (name : String) : List String :=
  if set.contains name then set else set ++ [name]

def insertAll (set : List String) (names : List String) : List String :=
  names.foldl insert set

def remove (set : List String) (names : List String) : List String :=
  set.filter fun name => !names.contains name

end NameSet

end Stubwise
