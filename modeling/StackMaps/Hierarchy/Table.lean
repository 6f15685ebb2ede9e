import StackMaps.Hierarchy.Basic

/-!
# Tables of classes

The plainest hierarchy: a list of classes with their direct supertypes.
-/

namespace StackMaps

/-- Classes with their direct supertypes. Of two entries for one class the first
one counts. -/
structure ClassTable where
  entries : List (BinaryName × ClassRecord)
  deriving DecidableEq

namespace ClassTable

/-- The table without classes. -/
def empty : ClassTable := ⟨[]⟩

/-- The direct supertypes of a class. -/
def lookup (table : ClassTable) (name : BinaryName) : Option ClassRecord :=
  table.entries.lookup name

/-- Set the direct supertypes of a class, in place of earlier ones. -/
def insert (table : ClassTable) (name : BinaryName) (record : ClassRecord) : ClassTable :=
  ⟨(name, record) :: table.entries.filter fun entry => entry.1 != name⟩

/-- Every class with supertypes has an entry. -/
theorem mem_of_lookup
    (table : ClassTable)
    (name : BinaryName)
    (record : ClassRecord)
    (found : table.lookup name = some record) :
    name ∈ table.entries.map (·.1) := by
  obtain ⟨before, after, split, _⟩ := List.lookup_eq_some_iff.mp found
  simp [split]

/-- The hierarchy of a table. -/
def hierarchy (table : ClassTable) : Hierarchy :=
  .ofLookup (table.entries.map (·.1)) table.lookup table.mem_of_lookup

end ClassTable

end StackMaps
