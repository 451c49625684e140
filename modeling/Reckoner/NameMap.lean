/-!
Finite maps keyed by names. A map is looked at through `find?`; its entries keep the order
in which the names were first inserted.
-/

set_option autoImplicit false
set_option relaxedAutoImplicit false

namespace Reckoner

/-- A map from names to values. -/
structure NameMap (α : Type) where
  entries : List (String × α)

namespace NameMap

variable {α : Type}

/-- The map without entries. -/
def empty : NameMap α := ⟨[]⟩

/-- Replaces the entry of a name where it stands, or adds one at the end. -/
def insertEntry (name : String) (value : α) : List (String × α) → List (String × α)
  | [] => [(name, value)]
  | (key, old) :: rest =>
    if key = name then (name, value) :: rest else (key, old) :: insertEntry name value rest

/-- The map with a new value for a name. -/
def insert (map : NameMap α) (name : String) (value : α) : NameMap α :=
  ⟨insertEntry name value map.entries⟩

/-- The value of a name. -/
def find? (map : NameMap α) (name : String) : Option α :=
  (map.entries.find? (·.1 = name)).map (·.2)

/-- Whether the name has a value. -/
def contains (map : NameMap α) (name : String) : Bool :=
  (map.find? name).isSome

/-- The map with the given entries, of which the later ones win. -/
def ofList (entries : List (String × α)) : NameMap α :=
  entries.foldl (fun map (name, value) ↦ map.insert name value) empty

/-- The entries in the order of their names. -/
def sorted (map : NameMap α) : List (String × α) :=
  map.entries.mergeSort fun first second ↦ !(second.1 < first.1)

@[simp] theorem find?_empty (name : String) : (empty : NameMap α).find? name = none := rfl

theorem find?_insert (map : NameMap α) (name other : String) (value : α) :
    (map.insert name value).find? other = if name = other then some value else map.find? other := by
  obtain ⟨entries⟩ := map
  simp only [find?, insert]
  induction entries with
  | nil => by_cases h : name = other <;> simp [insertEntry, h]
  | cons entry rest ih =>
    obtain ⟨key, old⟩ := entry
    by_cases hkey : key = name
    · by_cases h : name = other <;> simp [insertEntry, hkey, h]
    · by_cases hother : key = other
      · subst hother
        simp [insertEntry, hkey, Ne.symm hkey]
      · simpa [insertEntry, hkey, hother] using ih

end NameMap

end Reckoner
